import FiniteState.Word
import Mathlib.Data.List.Shortlex
/-!
The words that an enumeration gives.  The digits of the next word stand for the words of its length
that are still to come: counting further drops the first of them, and a carry means that none is
left.  So a bounded enumeration lists the words up to its bound in length-lexicographic order, and
one without a bound gives the same words until its words are longer than that.
-/

namespace FiniteState

universe u

variable {L : Type u} [Ordered L]

instance : Std.Asymm (Precedes : L → L → Prop) :=
  ⟨fun _ _ h => h.asymm⟩

namespace Word

variable {alphabet : OrderedSet L} {n bound : Nat} {w : Word L}

section Layers

theorem mem_ofLength : w ∈ ofLength alphabet n ↔ w.length = n ∧ ∀ l ∈ w, l ∈ alphabet := by
  induction n generalizing w with
  | zero =>
      rw [ofLength, List.mem_singleton, List.length_eq_zero_iff]
      exact ⟨fun h => ⟨h, by simp [h]⟩, fun h => h.1⟩
  | succ n ih =>
      simp only [ofLength, extendLayer, List.mem_flatMap, List.mem_map, ih]
      constructor
      · intro h
        obtain ⟨l, hl, v, ⟨hlength, hv⟩, rfl⟩ := h
        exact ⟨by rw [List.length_cons, hlength], List.forall_mem_cons.mpr ⟨hl, hv⟩⟩
      · intro h
        obtain ⟨hlength, hw⟩ := h
        obtain ⟨l, v, rfl⟩ := List.exists_cons_of_length_eq_add_one hlength
        obtain ⟨hl, hv⟩ := List.forall_mem_cons.mp hw
        exact ⟨l, hl, v, ⟨Nat.succ.inj hlength, hv⟩, rfl⟩

theorem mem_upTo : w ∈ upTo alphabet bound ↔ w.length ≤ bound ∧ ∀ l ∈ w, l ∈ alphabet := by
  simp only [upTo_eq_flatMap, List.mem_flatMap, List.mem_range, mem_ofLength, Nat.lt_succ_iff]
  constructor
  · intro h
    obtain ⟨n, hn, rfl, hw⟩ := h
    exact ⟨hn, hw⟩
  · exact fun h => ⟨w.length, h.1, rfl, h.2⟩

theorem pairwise_ofLength (alphabet : OrderedSet L) (n : Nat) :
    (ofLength alphabet n).Pairwise (List.Lex Precedes) := by
  induction n with
  | zero => exact List.pairwise_singleton _ _
  | succ n ih =>
      rw [ofLength, extendLayer, List.pairwise_flatMap]
      constructor
      · intro l _
        exact List.pairwise_map.mpr (ih.imp List.Lex.cons)
      · refine alphabet.increasing.imp fun {l m} hlm => ?_
        simp only [List.mem_map]
        rintro _ ⟨v, -, rfl⟩ _ ⟨w, -, rfl⟩
        exact List.Lex.rel hlm

theorem pairwise_upTo (alphabet : OrderedSet L) (bound : Nat) :
    (upTo alphabet bound).Pairwise (List.Shortlex Precedes) := by
  rw [upTo_eq_flatMap, List.pairwise_flatMap]
  constructor
  · intro n _
    refine (pairwise_ofLength alphabet n).imp_of_mem fun hv hw hlex => ?_
    exact .of_lex ((mem_ofLength.mp hv).1.trans (mem_ofLength.mp hw).1.symm) hlex
  · refine List.pairwise_lt_range.imp fun {m n} hmn v hv w hw => ?_
    refine .of_length_lt ?_
    rwa [(mem_ofLength.mp hv).1, (mem_ofLength.mp hw).1]

theorem nodup_upTo (alphabet : OrderedSet L) (bound : Nat) : (upTo alphabet bound).Nodup := by
  refine (pairwise_upTo alphabet bound).imp fun h heq => ?_
  subst heq
  exact asymm h h

/-- With a greater bound, the longer words come behind the others. -/
theorem upTo_prefix_of_le (alphabet : OrderedSet L) {m n : Nat} (h : m ≤ n) :
    upTo alphabet m <+: upTo alphabet n := by
  obtain ⟨extra, rfl⟩ := Nat.exists_eq_add_of_le h
  rw [upTo_eq_flatMap, upTo_eq_flatMap, Nat.add_right_comm, List.range_add (n := m + 1),
    List.flatMap_append]
  exact List.prefix_append _ _

end Layers

end Word

namespace Words

open Word

variable {alphabet : OrderedSet L} {digits digits' : List (Fin alphabet.size)} {bound j k : Nat}
  {labels : List L} {v w : Word L}

section Following

/-- The words of the same length from the one with the given digits on. -/
def following (alphabet : OrderedSet L) : List (Fin alphabet.size) → List (Word L)
  | [] => [[]]
  | digit :: digits =>
      (following alphabet digits).map (alphabet.toList.get digit :: ·) ++
        (alphabet.toList.drop (digit + 1)).flatMap fun l =>
          (ofLength alphabet digits.length).map (l :: ·)

/-- From the first letter on, a word is followed by all words of its length. -/
theorem following_zero_cons (h : 0 < alphabet.size)
    (hdigits : following alphabet digits = ofLength alphabet digits.length) :
    following alphabet (⟨0, h⟩ :: digits) = ofLength alphabet (digits.length + 1) := by
  have hletters : alphabet.toList = alphabet.toList.get ⟨0, h⟩ :: alphabet.toList.drop 1 :=
    List.drop_eq_getElem_cons h
  rw [following, hdigits, ofLength, extendLayer]
  conv_rhs => rw [hletters, List.flatMap_cons]
  rfl

theorem following_replicate_zero (h : 0 < alphabet.size) (n : Nat) :
    following alphabet (List.replicate n ⟨0, h⟩) = ofLength alphabet n := by
  induction n with
  | zero => rfl
  | succ n ih =>
      rw [List.replicate_succ, following_zero_cons h (by rwa [List.length_replicate]),
        List.length_replicate]

theorem length_increment {base : Nat} {digits digits' : List (Fin base)} {carry : Bool}
    (h : increment digits = (digits', carry)) : digits'.length = digits.length := by
  induction digits generalizing digits' carry with
  | nil =>
      cases h
      rfl
  | cons digit digits ih =>
      rw [increment] at h
      split at h
      · cases h
        rw [List.length_cons, List.length_cons, ih ‹_›]
      · split at h <;> cases h <;> rw [List.length_cons, List.length_cons, ih ‹_›]

/-- There is a carry after the last word of a length, and the digits are then those of the first
one. -/
theorem following_of_carry (h : increment digits = (digits', true)) :
    following alphabet digits = [digits.map alphabet.toList.get] ∧
      following alphabet digits' = ofLength alphabet digits.length := by
  induction digits generalizing digits' with
  | nil =>
      cases h
      exact ⟨rfl, rfl⟩
  | cons digit digits ih =>
      rw [increment] at h
      split at h
      · cases h
      · rename_i rest hrest
        obtain ⟨hlast, hfirst⟩ := ih hrest
        split at h
        · cases h
        · rename_i hdigit
          cases h
          constructor
          · rw [following, hlast, List.drop_eq_nil_of_le (Nat.le_of_not_lt hdigit)]
            rfl
          · rw [← length_increment hrest] at hfirst
            rw [following_zero_cons digit.pos hfirst, length_increment hrest, List.length_cons]

/-- Without a carry, the word is followed by the words from the next digits on. -/
theorem following_of_increment (h : increment digits = (digits', false)) :
    following alphabet digits = digits.map alphabet.toList.get :: following alphabet digits' := by
  induction digits generalizing digits' with
  | nil => cases h
  | cons digit digits ih =>
      rw [increment] at h
      split at h
      · rename_i rest hrest
        cases h
        rw [following, ih hrest, following, length_increment hrest]
        rfl
      · rename_i rest hrest
        obtain ⟨hlast, hfirst⟩ := following_of_carry hrest
        split at h
        · rename_i hdigit
          cases h
          rw [following, hlast, List.drop_eq_getElem_cons hdigit, following, hfirst,
            length_increment hrest]
          rfl
        · cases h

end Following

section Advance

theorem advance_of_increment {limit : Option Nat} (h : increment digits = (digits', false)) :
    advance limit digits = some digits' := by
  rw [advance, h]

/-- After a carry, the first word of the next length comes next, if there are letters and the bound
admits it. -/
theorem advance_of_carry (limit : Option Nat) (h : increment digits = (digits', true)) :
    (∃ hsize : 0 < alphabet.size, (∀ bound ∈ limit, digits.length < bound) ∧
        advance limit digits = some (List.replicate (digits.length + 1) ⟨0, hsize⟩)) ∨
      (alphabet.size = 0 ∨ ∃ bound ∈ limit, bound ≤ digits.length) ∧
        advance limit digits = none := by
  rw [advance, h]
  by_cases hadmitted : 0 < alphabet.size ∧ limit.all (digits.length + 1 ≤ ·)
  · refine Or.inl ⟨hadmitted.1, ?_, dif_pos hadmitted⟩
    rintro bound rfl
    simpa [Nat.succ_le_iff] using hadmitted.2
  · refine Or.inr ⟨?_, dif_neg hadmitted⟩
    rw [not_and_or] at hadmitted
    refine hadmitted.imp Nat.eq_zero_of_not_pos fun hlimit => ?_
    cases limit with
    | none => exact absurd rfl hlimit
    | some bound => exact ⟨bound, rfl, by simpa [Nat.lt_succ_iff] using hlimit⟩

theorem length_of_advance {limit : Option Nat} (h : advance limit digits = some digits') :
    digits'.length = digits.length ∨ digits'.length = digits.length + 1 := by
  cases hincrement : increment digits with
  | mk rest carry =>
      cases carry with
      | false =>
          rw [advance_of_increment hincrement] at h
          cases h
          exact Or.inl (length_increment hincrement)
      | true =>
          rcases advance_of_carry _ hincrement with ⟨hsize, -, hnext⟩ | ⟨-, hnext⟩
          · rw [hnext] at h
            cases h
            exact Or.inr List.length_replicate
          · rw [hnext] at h
            cases h

end Advance

section Ahead

/-- The words up to a bound that an enumeration still gives: those of the current length, and then
those of the greater lengths. -/
def ahead (alphabet : OrderedSet L) (bound : Nat) :
    Option (List (Fin alphabet.size)) → List (Word L)
  | none => []
  | some digits =>
      following alphabet digits ++
        (List.range' (digits.length + 1) (bound - digits.length)).flatMap (ofLength alphabet)

theorem ahead_nil (alphabet : OrderedSet L) (bound : Nat) :
    ahead alphabet bound (some []) = Word.upTo alphabet bound := by
  rw [upTo_eq_flatMap, List.range_eq_range', List.range'_succ, List.flatMap_cons]
  rfl

theorem ofLength_eq_nil (h : alphabet.size = 0) (n : Nat) : ofLength alphabet (n + 1) = [] := by
  rw [ofLength, extendLayer, List.eq_nil_of_length_eq_zero h, List.flatMap_nil]

/-- No words of greater lengths are ahead if there are no letters, or if the bound is reached. -/
theorem flatMap_greater_eq_nil {n : Nat} (h : alphabet.size = 0 ∨ bound ≤ n) :
    (List.range' (n + 1) (bound - n)).flatMap (ofLength alphabet) = [] := by
  rcases h with hsize | hle
  · refine List.flatMap_eq_nil_iff.mpr fun m hm => ?_
    obtain ⟨hle, -⟩ := List.mem_range'_1.mp hm
    obtain ⟨m, rfl⟩ := Nat.exists_eq_add_one_of_ne_zero (Nat.ne_zero_of_lt hle)
    exact ofLength_eq_nil hsize m
  · rw [Nat.sub_eq_zero_of_le hle, List.range'_zero, List.flatMap_nil]

/-- The word of the digits is the first one ahead, and the others are ahead of the next digits. -/
theorem ahead_some (alphabet : OrderedSet L) (bound : Nat) (digits : List (Fin alphabet.size)) :
    ahead alphabet bound (some digits) =
      digits.map alphabet.toList.get :: ahead alphabet bound (advance (some bound) digits) := by
  cases hincrement : increment digits with
  | mk digits' carry =>
      cases carry with
      | false =>
          rw [advance_of_increment hincrement, ahead, ahead, following_of_increment hincrement,
            length_increment hincrement, List.cons_append]
      | true =>
          obtain ⟨hlast, -⟩ := following_of_carry hincrement
          rw [ahead, hlast, List.singleton_append]
          rcases advance_of_carry _ hincrement with ⟨hsize, hlt, hnext⟩ | ⟨hend, hnext⟩
          · have hsucc : bound - digits.length = bound - (digits.length + 1) + 1 := by
              have := hlt bound rfl
              omega
            rw [hnext, ahead, following_replicate_zero, List.length_replicate, hsucc,
              List.range'_succ, List.flatMap_cons]
          · rw [hnext, ahead, flatMap_greater_eq_nil (hend.imp_right fun h => by simpa using h)]

end Ahead

section Calls

/-- What the call with the given number gives, where the first one has the number 0. -/
def call : Nat → Words L → Option (Word L)
  | 0, s => s.next.1
  | k + 1, s => call k s.next.2

theorem call_of_ended (alphabet : OrderedSet L) (limit : Option Nat) (k : Nat) :
    call k ⟨alphabet, none, limit⟩ = none := by
  induction k with
  | zero => rfl
  | succ k ih => exact ih

theorem call_eq_getElem?_ahead (current : Option (List (Fin alphabet.size))) (bound k : Nat) :
    call k ⟨alphabet, current, some bound⟩ = (ahead alphabet bound current)[k]? := by
  induction k generalizing current with
  | zero =>
      cases current with
      | none => rfl
      | some digits =>
          rw [ahead_some]
          rfl
  | succ k ih =>
      cases current with
      | none => exact call_of_ended alphabet (some bound) (k + 1)
      | some digits =>
          rw [ahead_some, List.getElem?_cons_succ, ← ih]
          rfl

theorem take_eq_take_ahead (current : Option (List (Fin alphabet.size))) (bound count : Nat) :
    take count ⟨alphabet, current, some bound⟩ = (ahead alphabet bound current).take count := by
  induction count generalizing current with
  | zero => rfl
  | succ count ih =>
      cases current with
      | none => rfl
      | some digits =>
          rw [ahead_some, List.take_succ_cons, ← ih]
          rfl

/-- A bound makes no difference as long as it is not reached. -/
theorem advance_of_lt (h : digits.length < bound) :
    advance (some bound) digits = advance none digits := by
  have hadmitted : (some bound).all (digits.length + 1 ≤ ·) = true := decide_eq_true h
  rw [advance, advance]
  simp only [hadmitted, Option.all_none]

theorem call_of_le (h : digits.length + k ≤ bound) :
    call k ⟨alphabet, some digits, none⟩ = call k ⟨alphabet, some digits, some bound⟩ := by
  induction k generalizing digits with
  | zero => rfl
  | succ k ih =>
      change call k ⟨alphabet, advance none digits, none⟩ =
        call k ⟨alphabet, advance (some bound) digits, some bound⟩
      rw [advance_of_lt (by omega)]
      cases hnext : advance none digits with
      | none => rw [call_of_ended, call_of_ended]
      | some digits' =>
          apply ih
          rcases length_of_advance hnext with hlength | hlength <;> omega

theorem call_ofLabels (labels : List L) (h : k ≤ bound) :
    (ofLabels labels).call k = (Word.upTo (.ofList labels) bound)[k]? := by
  rw [← ahead_nil, ← call_eq_getElem?_ahead]
  exact call_of_le (by rwa [List.length_nil, Nat.zero_add])

/-- Every word over the labels is given by some call. -/
theorem exists_call_ofLabels (hw : ∀ l ∈ w, l ∈ labels) :
    ∃ k, (ofLabels labels).call k = some w := by
  have hmem : w ∈ Word.upTo (.ofList labels) w.length :=
    mem_upTo.mpr ⟨Nat.le_refl _, fun l hl => OrderedSet.mem_ofList.mpr (hw l hl)⟩
  obtain ⟨k, hk⟩ := List.mem_iff_getElem?.mp hmem
  obtain ⟨longer, happend⟩ := upTo_prefix_of_le (.ofList labels) (Nat.le_max_left w.length k)
  refine ⟨k, ?_⟩
  rw [call_ofLabels labels (Nat.le_max_right w.length k), ← happend,
    List.getElem?_append_left (List.getElem?_eq_some_iff.mp hk).1, hk]

theorem mem_of_call_ofLabels (h : (ofLabels labels).call k = some w) : ∀ l ∈ w, l ∈ labels := by
  rw [call_ofLabels labels (Nat.le_refl k)] at h
  have hmem := (mem_upTo.mp (List.mem_of_getElem? h)).2
  exact fun l hl => OrderedSet.mem_ofList.mp (hmem l hl)

/-- Later calls give later words. -/
theorem shortlex_of_lt (hv : (ofLabels labels).call j = some v)
    (hw : (ofLabels labels).call k = some w) (h : j < k) : List.Shortlex Precedes v w := by
  rw [call_ofLabels labels (Nat.le_of_lt h)] at hv
  rw [call_ofLabels labels (Nat.le_refl k)] at hw
  obtain ⟨hj, rfl⟩ := List.getElem?_eq_some_iff.mp hv
  obtain ⟨hk, rfl⟩ := List.getElem?_eq_some_iff.mp hw
  exact List.pairwise_iff_getElem.mp (pairwise_upTo _ k) j k hj hk h

theorem lt_iff_shortlex (hv : (ofLabels labels).call j = some v)
    (hw : (ofLabels labels).call k = some w) : j < k ↔ List.Shortlex Precedes v w := by
  constructor
  · exact shortlex_of_lt hv hw
  · intro h
    rcases Nat.lt_trichotomy j k with hjk | rfl | hkj
    · exact hjk
    · rw [hv, Option.some.injEq] at hw
      subst hw
      exact absurd h (asymm h)
    · exact absurd h (asymm (shortlex_of_lt hw hv hkj))

/-- Without a bound there is always a next word if there are letters. -/
theorem call_ne_none (h : 0 < alphabet.size) (digits : List (Fin alphabet.size)) (k : Nat) :
    call k ⟨alphabet, some digits, none⟩ ≠ none := by
  induction k generalizing digits with
  | zero => exact Option.some_ne_none _
  | succ k ih =>
      change call k ⟨alphabet, advance none digits, none⟩ ≠ none
      cases hincrement : increment digits with
      | mk digits' carry =>
          cases carry with
          | false =>
              rw [advance_of_increment hincrement]
              exact ih digits'
          | true =>
              rcases advance_of_carry none hincrement with ⟨hsize, -, hnext⟩ | ⟨hend, -⟩
              · rw [hnext]
                exact ih _
              · simp [Nat.ne_of_gt h] at hend

theorem call_ofLabels_eq_none_iff : (ofLabels labels).call k = none ↔ labels = [] ∧ 0 < k := by
  constructor
  · intro h
    constructor
    · by_contra hlabels
      obtain ⟨l, hl⟩ := List.exists_mem_of_ne_nil labels hlabels
      have hmem : l ∈ (OrderedSet.ofList labels).toList := OrderedSet.mem_ofList.mpr hl
      exact call_ne_none (List.length_pos_of_mem hmem) [] k h
    · by_contra hk
      rw [Nat.eq_zero_of_not_pos hk] at h
      cases h
  · intro h
    obtain ⟨rfl, hk⟩ := h
    obtain ⟨k, rfl⟩ := Nat.exists_eq_add_one_of_ne_zero (Nat.ne_of_gt hk)
    exact call_of_ended _ _ k

end Calls

end Words

/-- A bounded enumeration gives exactly the words up to its bound, each of them once and in
length-lexicographic order, and then it ends.  Without a bound every word over the labels is given
in the same order, and only without labels the enumeration ends, after the empty word. -/
theorem words_are_enumerated (labels : List L) :
    (∀ bound, ∃ words : List (Word L),
      (∀ k, (Words.upTo labels bound).call k = words[k]?) ∧
      (∀ count, (Words.upTo labels bound).take count = words.take count) ∧
      (∀ w, w ∈ words ↔ w.length ≤ bound ∧ ∀ l ∈ w, l ∈ labels) ∧
      words.Nodup ∧ words.Pairwise (List.Shortlex Precedes)) ∧
    (∀ w, (∃ k, (Words.ofLabels labels).call k = some w) ↔ ∀ l ∈ w, l ∈ labels) ∧
    (∀ j k v w, (Words.ofLabels labels).call j = some v → (Words.ofLabels labels).call k = some w →
      (j < k ↔ List.Shortlex Precedes v w)) ∧
    ∀ k, (Words.ofLabels labels).call k = none ↔ labels = [] ∧ 0 < k := by
  refine ⟨fun bound => ⟨Word.upTo (.ofList labels) bound, ?_, ?_, ?_, ?_, ?_⟩, ?_, ?_, ?_⟩
  · intro k
    rw [← Words.ahead_nil, ← Words.call_eq_getElem?_ahead]
    rfl
  · intro count
    rw [← Words.ahead_nil, ← Words.take_eq_take_ahead]
    rfl
  · intro w
    simp only [Word.mem_upTo, OrderedSet.mem_ofList]
  · exact Word.nodup_upTo _ bound
  · exact Word.pairwise_upTo _ bound
  · intro w
    constructor
    · intro h
      obtain ⟨k, hk⟩ := h
      exact Words.mem_of_call_ofLabels hk
    · exact Words.exists_call_ofLabels
  · exact fun _ _ _ _ => Words.lt_iff_shortlex
  · exact fun _ => Words.call_ofLabels_eq_none_iff

/-- Labels that are given twice, and not in order, make no difference. -/
example :
    (Words.upTo ['b', 'a', 'b'] 2).take 9 =
      [[], ['a'], ['b'], ['a', 'a'], ['a', 'b'], ['b', 'a'], ['b', 'b']] := by
  decide +kernel

end FiniteState
