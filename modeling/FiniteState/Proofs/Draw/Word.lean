import FiniteState.Draw.Word
import FiniteState.Proofs.Draw.Rejection
/-!
Random words.  Whatever words of 64 bits the source gives, a random word has a length in the range
that was asked for and consists of the given letters.  Without a bound on the attempts, with letters
that are looked up by their places, it is the same: there is a letter in every place that is drawn,
however many words were rejected before.
-/

namespace FiniteState

universe u v w

variable {L : Type u} {σ : Type}

namespace Draw

/-- What is asked of a random word. -/
structure Suits (alphabet : List L) (least greatest : Nat) (w : List L) : Prop where
  least_le : least ≤ w.length
  le_greatest : w.length ≤ greatest
  subset : w ⊆ alphabet

section InRange

variable (bits : Draw σ UInt64) (attempts : Nat) {alphabet : List L} {least greatest : Nat}

/-- The letter in the place that is drawn is given. -/
theorem getElem?_below_eq_some_member (first : L) (rest : List L) (s : σ) :
    (first :: rest)[(below bits attempts (rest.length + 1) s).1]? =
      some (member bits attempts first rest s).1 := by
  have hlt : (below bits attempts (rest.length + 1) s).1 < (first :: rest).length :=
    below_lt bits attempts (Nat.succ_pos _) s
  have hmember : (member bits attempts first rest s).1 =
      (first :: rest).getD (below bits attempts (rest.length + 1) s).1 first :=
    rfl
  rw [hmember, List.getD_eq_getElem?_getD, List.getElem?_eq_getElem hlt, Option.getD_some]

theorem member_mem (first : L) (rest : List L) (s : σ) :
    (member bits attempts first rest s).1 ∈ first :: rest :=
  List.mem_of_getElem? (getElem?_below_eq_some_member bits attempts first rest s)

theorem suits_word (hletters : alphabet ≠ []) (h : least ≤ greatest) (s : σ) :
    Suits alphabet least greatest (word bits attempts alphabet least greatest s).1 := by
  obtain ⟨first, rest, rfl⟩ := List.exists_cons_of_ne_nil hletters
  obtain ⟨hleast, hgreatest⟩ := between_mem_range bits attempts h s
  have hlength : (word bits attempts (first :: rest) least greatest s).1.length =
      (between bits attempts least greatest s).1 := by
    rw [word, length_forEach, List.length_replicate]
  refine ⟨hlength ▸ hleast, hlength ▸ hgreatest, ?_⟩
  exact forall_mem_forEach (fun _ _ s => member_mem bits attempts first rest s) _

theorem words_eq_ok (h : least ≤ greatest) (count : Nat) (s : σ) :
    words bits attempts alphabet least greatest count s =
      .ok (forEach (fun _ => word bits attempts alphabet least greatest)
        (List.replicate count ()) s) :=
  if_neg fun hempty => absurd h (Nat.not_le.mpr hempty.2.2)

/-- What is asked of a number of random words. -/
structure AllSuit (alphabet : List L) (least greatest count : Nat) (ws : List (List L)) : Prop where
  length_eq : ws.length = count
  suits : ∀ w ∈ ws, Suits alphabet least greatest w

theorem allSuit_forEach (hletters : alphabet ≠ []) (h : least ≤ greatest) (count : Nat) (s : σ) :
    AllSuit alphabet least greatest count
      (forEach (fun _ => word bits attempts alphabet least greatest)
        (List.replicate count ()) s).1 where
  length_eq := by rw [length_forEach, List.length_replicate]
  suits := forall_mem_forEach (fun _ _ s => suits_word bits attempts hletters h s) s

end InRange

section Sequence

variable {α : Type u} {β : Type v} {γ : Type w} {first : PartialDraw σ α}
  {next : α → PartialDraw σ γ}

/-- Draw a value and go on with it, unless the draw has failed. -/
def andThen (first : PartialDraw σ α) (next : α → PartialDraw σ γ) : PartialDraw σ γ := fun s =>
  (first s).bind fun outcome =>
    match outcome with
    | none => Part.some none
    | some (a, s) => next a s

def drawTimes (first : PartialDraw σ α) : Nat → PartialDraw σ (List α)
  | 0 => fun s => Part.some (some ([], s))
  | count + 1 =>
      andThen first fun a =>
        andThen (drawTimes first count) fun as s => Part.some (some (a :: as, s))

/-- Two draws settle if the second one does for every value that the first one may give. -/
theorem Settles.andThen {value : α → β} {draw : Nat → Draw σ β} (h : Settles first value draw)
    (draw' : β → Nat → Draw σ γ)
    (hnext : ∀ a, (∃ attempts s, (draw attempts s).1 = value a) →
      Settles (next a) id (draw' (value a))) :
    Settles (andThen first next) id fun attempts s =>
      draw' (draw attempts s).1 attempts (draw attempts s).2 := by
  intro s outcome houtcome
  obtain ⟨middle, hmiddle, houtcome⟩ := Part.mem_bind_iff.mp houtcome
  obtain ⟨a, s', rfl, enough, henough⟩ := h s middle hmiddle
  have ha : (draw enough s).1 = value a := by rw [henough enough (Nat.le_refl enough)]
  obtain ⟨c, s'', rfl, enough', henough'⟩ := hnext a ⟨enough, s, ha⟩ s' outcome houtcome
  refine ⟨c, s'', rfl, max enough enough', fun attempts hattempts => ?_⟩
  obtain ⟨hfirst, hnext⟩ := Nat.max_le.mp hattempts
  dsimp only
  rw [henough attempts hfirst]
  exact henough' attempts hnext

/-- What holds of everything that the bounded draws give also holds of what the draw comes to. -/
theorem Settles.exists_of_forall {P : α → Prop} {draw : Nat → Draw σ α} (h : Settles first id draw)
    (hdraw : ∀ attempts s, P (draw attempts s).1) {s : σ} {outcome : Option (α × σ)}
    (houtcome : outcome ∈ first s) :
    ∃ a s', outcome = some (a, s') ∧ P a ∧
      ∃ enough, ∀ attempts ≥ enough, draw attempts s = (a, s') := by
  obtain ⟨a, s', rfl, enough, henough⟩ := h s outcome houtcome
  have ha : (draw enough s).1 = a := by rw [henough enough (Nat.le_refl enough), id]
  exact ⟨a, s', rfl, ha ▸ hdraw enough s, enough, henough⟩

theorem settles_some (a : α) :
    Settles (fun s : σ => Part.some (some (a, s))) id fun _ s => (a, s) :=
  fun s _ houtcome => ⟨a, s, Part.mem_some_iff.mp houtcome, 0, fun _ _ => rfl⟩

theorem Settles.drawTimes {draw : Nat → Draw σ α} (h : Settles first id draw) (b : β)
    (count : Nat) : Settles (drawTimes first count) id fun attempts =>
      forEach (fun _ => draw attempts) (List.replicate count b) := by
  induction count with
  | zero => exact settles_some []
  | succ count ih =>
      refine h.andThen (fun a attempts s =>
        (forEach (fun _ => draw attempts) (List.replicate count b) s).map (a :: ·) id) fun a _ => ?_
      exact ih.andThen (fun as _ s => (a :: as, s)) fun as _ => settles_some (a :: as)

theorem dom_andThen (h : ∀ s, (first s).Dom) (hnext : ∀ a s, (next a s).Dom) (s : σ) :
    (andThen first next s).Dom := by
  refine Part.bind_dom.mpr ⟨h s, ?_⟩
  cases (first s).get (h s) with
  | none => exact Part.some_dom _
  | some x => exact hnext x.1 x.2

theorem dom_drawTimes (h : ∀ s, (first s).Dom) (count : Nat) (s : σ) :
    (drawTimes first count s).Dom := by
  induction count generalizing s with
  | zero => exact Part.some_dom _
  | succ count ih => exact dom_andThen h (fun _ => dom_andThen ih fun _ _ => Part.some_dom _) s

end Sequence

section Unbounded

variable (bits : Draw σ UInt64) {alphabet : List L} {least greatest : UInt64}

/-- Draw a place and look up the letter there.  The draw fails if the place does not exist. -/
def drawMember (alphabet : List L) : PartialDraw σ L :=
  andThen (drawBetween bits 0 (UInt64.ofNat alphabet.length - 1)) fun place s =>
    Part.some (alphabet[place.toNat]?.map fun l => (l, s))

def drawWord (alphabet : List L) (least greatest : UInt64) : PartialDraw σ (List L) :=
  if alphabet.isEmpty then fun s => Part.some (some ([], s))
  else
    andThen (drawBetween bits least greatest) fun length =>
      drawTimes (drawMember bits alphabet) length.toNat

def drawWords (alphabet : List L) (least greatest : UInt64) (count : Nat) :
    PartialDraw σ (List (List L)) :=
  drawTimes (drawWord bits alphabet least greatest) count

theorem toNat_last_place (first : L) (rest : List L)
    (hlength : (first :: rest).length < UInt64.size) :
    (UInt64.ofNat (first :: rest).length - 1).toNat = rest.length := by
  rw [UInt64.toNat_sub_of_le, UInt64.toNat_ofNat_of_lt' hlength]
  · rfl
  · rw [UInt64.le_iff_toNat_le, UInt64.toNat_ofNat_of_lt' hlength]
    exact Nat.succ_pos _

theorem settles_drawMember (first : L) (rest : List L)
    (hlength : (first :: rest).length < UInt64.size) :
    Settles (drawMember bits (first :: rest)) id fun attempts =>
      member bits attempts first rest := by
  have hplace := settles_drawBetween bits
    (UInt64.zero_le : 0 ≤ UInt64.ofNat (first :: rest).length - 1)
  rw [UInt64.toNat_zero, toNat_last_place first rest hlength] at hplace
  simp only [between_zero] at hplace
  refine hplace.andThen (fun i _ s => ((first :: rest).getD i first, s)) ?_
  rintro place ⟨attempts, s, hdrawn⟩
  have hlt : place.toNat < (first :: rest).length :=
    hdrawn ▸ below_lt bits attempts (Nat.succ_pos _) s
  rw [List.getD_eq_getElem?_getD, List.getElem?_eq_getElem hlt]
  exact settles_some _

theorem settles_drawWord (hletters : alphabet ≠ []) (hlength : alphabet.length < UInt64.size)
    (h : least ≤ greatest) :
    Settles (drawWord bits alphabet least greatest) id fun attempts =>
      word bits attempts alphabet least.toNat greatest.toNat := by
  obtain ⟨first, rest, rfl⟩ := List.exists_cons_of_ne_nil hletters
  exact (settles_drawBetween bits h).andThen
    (fun length attempts => forEach (fun _ => member bits attempts first rest)
      (List.replicate length first))
    fun length _ => (settles_drawMember bits first rest hlength).drawTimes first length.toNat

theorem dom_drawWord (hletters : alphabet ≠ []) (hlength : alphabet.length < UInt64.size)
    (h : least ≤ greatest) (hrange : Yields bits (greatest.toNat - least.toNat + 1))
    (halphabet : Yields bits alphabet.length) (s : σ) :
    (drawWord bits alphabet least greatest s).Dom := by
  obtain ⟨first, rest, rfl⟩ := List.exists_cons_of_ne_nil hletters
  have hplace : ∀ s, (drawBetween bits 0 (UInt64.ofNat (first :: rest).length - 1) s).Dom := by
    refine dom_drawBetween bits UInt64.zero_le ?_
    rw [toNat_last_place first rest hlength]
    exact halphabet
  refine dom_andThen (dom_drawBetween bits h hrange) (fun length => ?_) s
  exact dom_drawTimes (dom_andThen hplace fun _ _ => Part.some_dom _) length.toNat

end Unbounded

/-- With letters and a least length that is not above the greatest one, every random word has a
length in this range and only these letters, however many are drawn and whatever the source gives.
If the letters can be counted in 64 bits, that is also so without a bound on the attempts: no draw
that comes to an end has failed, and with enough attempts the result is the same.  The draws come to
an end if the source never keeps to words that are rejected for the two ranges. -/
theorem random_words_stay_in_range (bits : Draw σ UInt64) (alphabet : List L)
    (hletters : alphabet ≠ []) (count : Nat) (s : σ) :
    (∀ attempts least greatest : Nat, least ≤ greatest →
      Suits alphabet least greatest (word bits attempts alphabet least greatest s).1 ∧
      ∃ ws s', words bits attempts alphabet least greatest count s = .ok (ws, s') ∧
        AllSuit alphabet least greatest count ws) ∧
    (alphabet.length < UInt64.size → ∀ least greatest : UInt64, least ≤ greatest →
      (∀ outcome ∈ drawWord bits alphabet least greatest s, ∃ w s', outcome = some (w, s') ∧
        Suits alphabet least.toNat greatest.toNat w ∧
        ∃ enough, ∀ attempts ≥ enough,
          word bits attempts alphabet least.toNat greatest.toNat s = (w, s')) ∧
      (∀ outcome ∈ drawWords bits alphabet least greatest count s, ∃ ws s',
        outcome = some (ws, s') ∧ AllSuit alphabet least.toNat greatest.toNat count ws ∧
        ∃ enough, ∀ attempts ≥ enough,
          words bits attempts alphabet least.toNat greatest.toNat count s = .ok (ws, s')) ∧
      (Yields bits (greatest.toNat - least.toNat + 1) → Yields bits alphabet.length →
        (drawWord bits alphabet least greatest s).Dom ∧
        (drawWords bits alphabet least greatest count s).Dom)) := by
  constructor
  · intro attempts least greatest h
    exact ⟨suits_word bits attempts hletters h s, _, _, words_eq_ok bits attempts h count s,
      allSuit_forEach bits attempts hletters h count s⟩
  · intro hlength least greatest h
    have hle : least.toNat ≤ greatest.toNat := UInt64.le_iff_toNat_le.mp h
    have hsettles := settles_drawWord bits hletters hlength h
    refine ⟨fun outcome houtcome => ?_, fun outcome houtcome => ?_, fun hrange halphabet => ?_⟩
    · exact hsettles.exists_of_forall
        (fun attempts s => suits_word bits attempts hletters hle s) houtcome
    · obtain ⟨ws, s', rfl, hsuit, enough, henough⟩ :=
        (hsettles.drawTimes () count).exists_of_forall
          (fun attempts s => allSuit_forEach bits attempts hletters hle count s) houtcome
      refine ⟨ws, s', rfl, hsuit, enough, fun attempts hattempts => ?_⟩
      rw [words_eq_ok bits attempts hle, henough attempts hattempts]
    · have hdom := dom_drawWord bits hletters hlength h hrange halphabet
      exact ⟨hdom s, dom_drawTimes hdom count s⟩

/-- Words of two to five letters are drawn from two letters.  Neither of the two ranges has a word
that is rejected. -/
theorem random_words_over_two_letters_stay_in_range :
    (['a', 'b'] ≠ [] ∧ 2 ≤ 5 ∧ ['a', 'b'].length < UInt64.size ∧ (2 : UInt64) ≤ 5) ∧
      Suits ['a', 'b'] 2 5
        (word Generator.next Generator.attempts ['a', 'b'] 2 5 ⟨7⟩).1 ∧
      ∃ w s', some (w, s') ∈ drawWord Generator.next ['a', 'b'] 2 5 ⟨7⟩ ∧
        Suits ['a', 'b'] 2 5 w := by
  obtain ⟨hbounded, hunbounded⟩ :=
    random_words_stay_in_range Generator.next ['a', 'b'] (by decide) 3 ⟨7⟩
  obtain ⟨hsuits, -, hends⟩ := hunbounded (by decide) 2 5 (by decide)
  obtain ⟨outcome, houtcome⟩ := Part.dom_iff_mem.mp
    (hends (yields_of_dvd _ (by decide)) (yields_of_dvd _ (by decide))).1
  obtain ⟨w, s', rfl, hw, -⟩ := hsuits outcome houtcome
  exact ⟨by decide, (hbounded _ 2 5 (by decide)).1, w, s', houtcome, hw⟩

end Draw

end FiniteState
