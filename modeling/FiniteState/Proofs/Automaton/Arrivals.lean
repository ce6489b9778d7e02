import FiniteState.Automaton.ShortestWord
import FiniteState.Proofs.Automaton.Language
/-!
The arrivals of the search for a shortest word.  An arrival enters the search only if it is nearer
than what is known of its state.  What is kept is that every known state is settled or waits no
farther away than it is known to be, that the distances of settled states do not change any more,
and that the moves out of settled states have been followed.
-/

namespace FiniteState

universe u

variable {L : Type u}

namespace ShortestWord

variable {progress : Progress L} {a b c : Arrival L} {m : Move L} {l : Option L} {p q d n : Nat}

section Enter

/-- The arrivals that have not been looked at. -/
def Progress.waiting (progress : Progress L) : List (Arrival L) :=
  progress.current ++ progress.later

/-- The smallest distance that is known for the state is `d`. -/
def Progress.At (progress : Progress L) (q d : Nat) : Prop :=
  progress.distance[q]? = some (some d)

/-- The state is known to be at distance `d` or a smaller one. -/
def Progress.Within (progress : Progress L) (q d : Nat) : Prop :=
  ∃ known ≤ d, progress.At q known

theorem Progress.At.unique {e : Nat} (h : progress.At q d) (h' : progress.At q e) : d = e := by
  rw [At] at h h'
  simpa [h] using h'

theorem Progress.Within.mono {e : Nat} (h : progress.Within q d) (hle : d ≤ e) :
    progress.Within q e := by
  obtain ⟨known, hknown, hat⟩ := h
  exact ⟨known, hknown.trans hle, hat⟩

theorem improves_iff : improves progress.distance q d = true ↔ ¬ progress.Within q d := by
  rw [improves]
  split
  · rename_i known hknown
    have hat : progress.At q known := hknown
    rw [decide_eq_true_iff]
    constructor
    · rintro hlt ⟨e, hle, he⟩
      rw [hat.unique he] at hlt
      omega
    · intro hnot
      by_contra hle
      exact hnot ⟨known, Nat.le_of_not_lt hle, hat⟩
  · rename_i hnone
    refine iff_of_true rfl ?_
    rintro ⟨known, -, hat⟩
    exact hnone known hat

/-- Where a move leads to from the place of an arrival. -/
def Arrival.along (a : Arrival L) (m : Move L) : Arrival L :=
  ⟨m.state, m.label.toList ++ a.trace⟩

theorem length_along : (a.along m).trace.length = a.trace.length + m.label.toList.length := by
  rw [Arrival.along, List.length_append, Nat.add_comm]

/-- The search with one more arrival, in the current layer if nothing was read on the last move. -/
def Progress.enter (progress : Progress L) (b : Arrival L) : Option L → Progress L
  | none =>
      { progress with
        current := b :: progress.current
        distance := progress.distance.setIfInBounds b.state (some b.trace.length) }
  | some _ =>
      { progress with
        later := b :: progress.later
        distance := progress.distance.setIfInBounds b.state (some b.trace.length) }

@[simp] theorem settled_enter : (progress.enter b l).settled = progress.settled := by
  cases l <;> rfl

@[simp] theorem size_distance_enter :
    (progress.enter b l).distance.size = progress.distance.size := by
  cases l <;> simp [Progress.enter]

@[simp] theorem mem_waiting_enter :
    c ∈ (progress.enter b l).waiting ↔ c = b ∨ c ∈ progress.waiting := by
  cases l with
  | none => simp [Progress.enter, Progress.waiting]
  | some l => simp [Progress.enter, Progress.waiting, or_left_comm]

theorem length_waiting_enter :
    (progress.enter b l).waiting.length = progress.waiting.length + 1 := by
  cases l with
  | none => simp [Progress.enter, Progress.waiting, Nat.add_right_comm]
  | some l => simp [Progress.enter, Progress.waiting, Nat.add_assoc]

/-- The new arrival is all that is known of its state. -/
theorem at_enter_iff (hb : b.state < progress.distance.size) :
    (progress.enter b l).At q d ↔
      q = b.state ∧ d = b.trace.length ∨ q ≠ b.state ∧ progress.At q d := by
  have hdistance : (progress.enter b l).distance[q]? =
      if b.state = q then some (some b.trace.length) else progress.distance[q]? := by
    cases l <;> simp only [Progress.enter, Array.getElem?_setIfInBounds, hb, if_true]
  rw [Progress.At, hdistance]
  by_cases hq : b.state = q
  · rw [if_pos hq]
    simp [hq, eq_comm]
  · rw [if_neg hq]
    simp [Ne.symm hq, Progress.At]

end Enter

section Follow

theorem follow_of_within (h : progress.Within m.state (a.along m).trace.length) :
    follow a progress m = progress := by
  have himproves : improves progress.distance m.state (a.along m).trace.length = false :=
    Bool.eq_false_iff.mpr fun himproves => improves_iff.mp himproves h
  obtain ⟨label, q⟩ := m
  rw [length_along] at himproves
  cases label with
  | none => exact if_neg (Bool.eq_false_iff.mp himproves)
  | some l => exact if_neg (Bool.eq_false_iff.mp himproves)

theorem follow_of_not_within (h : ¬ progress.Within m.state (a.along m).trace.length) :
    follow a progress m = progress.enter (a.along m) m.label := by
  have himproves := improves_iff.mpr h
  obtain ⟨label, q⟩ := m
  rw [length_along] at himproves
  cases label with
  | none => exact if_pos himproves
  | some l => exact if_pos himproves

end Follow

variable [Label L] {A : Automaton L} {moves : List (Move L)} {v w : List L}
  {rest : List (Arrival L)} {unfollowed : List (Transition L)}

section Invariant

/-- Some run from an initial state reads the trace of the arrival on the way to its state. -/
def Arrives (A : Automaton L) (a : Arrival L) : Prop :=
  ∃ i, A.isInitial i = true ∧ Run A.Moves i a.trace.reverse a.state

theorem Arrives.along (h : Arrives A a) (hmove : A.Moves a.state m.label m.state) :
    Arrives A (a.along m) := by
  obtain ⟨i, hi, hrun⟩ := h
  refine ⟨i, hi, ?_⟩
  have hreverse : (a.along m).trace.reverse = a.trace.reverse ++ m.label.toList := by
    rw [Arrival.along, List.reverse_append]
    cases m.label <;> rfl
  rw [hreverse]
  exact hrun.append (Run.single hmove)

theorem Arrives.lt_size (h : Arrives A a) : a.state < A.size := by
  obtain ⟨i, hi, hrun⟩ := h
  exact Automaton.run_lt_size hrun (Automaton.lt_size_of_isInitial hi)

/-- The search while arrivals at distance `n` are settled, and while the transitions `unfollowed`
out of settled states still have to be followed. -/
structure Invariant (A : Automaton L) (n : Nat) (progress : Progress L)
    (unfollowed : List (Transition L)) : Prop where
  size_eq : progress.distance.size = A.size
  length_current : ∀ a ∈ progress.current, a.trace.length = n
  length_later : ∀ a ∈ progress.later, a.trace.length = n + 1
  arrives : ∀ a ∈ progress.waiting, Arrives A a
  waiting_within : ∀ a ∈ progress.waiting, progress.Within a.state a.trace.length
  initial_within : ∀ p, A.isInitial p = true → progress.Within p 0
  settled_within : ∀ p ∈ progress.settled, progress.Within p n
  known : ∀ q d, progress.At q d → q ∈ progress.settled ∨
    ∃ a ∈ progress.waiting, a.state = q ∧ a.trace.length ≤ d
  not_terminal : ∀ p ∈ progress.settled, A.isTerminal p = false
  followed : ∀ p ∈ progress.settled, ∀ d, progress.At p d → ∀ l q, A.Moves p l q →
    ⟨p, l, q⟩ ∈ unfollowed ∨ progress.Within q (d + l.toList.length)

theorem Invariant.le_length (h : Invariant A n progress unfollowed) (ha : a ∈ progress.waiting) :
    n ≤ a.trace.length := by
  rcases List.mem_append.mp ha with ha | ha
  · exact (h.length_current a ha).ge
  · rw [h.length_later a ha]
    exact Nat.le_succ n

/-- A move whose end is known to be as near does not have to be followed. -/
theorem Invariant.drop (h : Invariant A n progress (⟨p, l, q⟩ :: unfollowed))
    (hp : ∀ d, progress.At p d → n ≤ d) (hq : progress.Within q (n + l.toList.length)) :
    Invariant A n progress unfollowed := by
  refine { h with followed := fun p' hp' d hd l' q' hmove => ?_ }
  rcases h.followed p' hp' d hd l' q' hmove with hmem | hwithin
  · rcases List.mem_cons.mp hmem with heq | hmem
    · cases heq
      exact Or.inr (hq.mono (Nat.add_le_add_right (hp d hd) _))
    · exact Or.inl hmem
  · exact Or.inr hwithin

/-- A settled state is at distance `n` at most, so it is not the one that is reached now. -/
theorem Invariant.at_of_at_enter (h : Invariant A n progress unfollowed)
    (hlt : b.state < A.size) (hle : n ≤ b.trace.length)
    (hnear : ¬ progress.Within b.state b.trace.length) (hp : p ∈ progress.settled)
    (hd : (progress.enter b l).At p d) : progress.At p d := by
  rcases (at_enter_iff (h.size_eq.symm ▸ hlt)).mp hd with ⟨rfl, -⟩ | ⟨-, hd⟩
  · exact absurd ((h.settled_within _ hp).mono hle) hnear
  · exact hd

/-- An arrival that is nearer than what is known of its state enters its layer. -/
theorem Invariant.enter (h : Invariant A n progress unfollowed) (hb : Arrives A b)
    (hlt : b.state < A.size) (hlength : b.trace.length = n + l.toList.length)
    (hnear : ¬ progress.Within b.state b.trace.length) :
    Invariant A n (progress.enter b l) unfollowed := by
  have hat {q d : Nat} : (progress.enter b l).At q d ↔
      q = b.state ∧ d = b.trace.length ∨ q ≠ b.state ∧ progress.At q d :=
    at_enter_iff (h.size_eq.symm ▸ hlt)
  have hwithin {q d : Nat} (hq : progress.Within q d) : (progress.enter b l).Within q d := by
    obtain ⟨known, hle, hknown⟩ := hq
    by_cases heq : q = b.state
    · subst heq
      have hlt : b.trace.length < known :=
        Nat.lt_of_not_le fun hle => hnear ⟨known, hle, hknown⟩
      exact ⟨b.trace.length, by omega, hat.mpr (Or.inl ⟨rfl, rfl⟩)⟩
    · exact ⟨known, hle, hat.mpr (Or.inr ⟨heq, hknown⟩)⟩
  have hle : n ≤ b.trace.length := by omega
  constructor
  case size_eq => rw [size_distance_enter, h.size_eq]
  case length_current =>
    cases l with
    | none => exact List.forall_mem_cons.mpr ⟨hlength, h.length_current⟩
    | some l => exact h.length_current
  case length_later =>
    cases l with
    | none => exact h.length_later
    | some l => exact List.forall_mem_cons.mpr ⟨hlength, h.length_later⟩
  case arrives =>
    intro a ha
    rcases mem_waiting_enter.mp ha with rfl | ha
    · exact hb
    · exact h.arrives a ha
  case waiting_within =>
    intro a ha
    rcases mem_waiting_enter.mp ha with rfl | ha
    · exact ⟨_, le_rfl, hat.mpr (Or.inl ⟨rfl, rfl⟩)⟩
    · exact hwithin (h.waiting_within a ha)
  case initial_within => exact fun p hp => hwithin (h.initial_within p hp)
  case settled_within =>
    rw [settled_enter]
    exact fun p hp => hwithin (h.settled_within p hp)
  case known =>
    intro q d hd
    rw [settled_enter]
    rcases hat.mp hd with ⟨rfl, rfl⟩ | ⟨-, hd⟩
    · exact Or.inr ⟨b, mem_waiting_enter.mpr (Or.inl rfl), rfl, le_rfl⟩
    · refine (h.known q d hd).imp_right ?_
      rintro ⟨a, ha, hstate, hle⟩
      exact ⟨a, mem_waiting_enter.mpr (Or.inr ha), hstate, hle⟩
  case not_terminal =>
    rw [settled_enter]
    exact h.not_terminal
  case followed =>
    rw [settled_enter]
    intro p hp d hd l' q hmove
    have hd := h.at_of_at_enter hlt hle hnear hp hd
    exact (h.followed p hp d hd l' q hmove).imp_right hwithin

/-- The state of an arrival at distance `n` has been settled, and it is not nearer. -/
structure Settling (A : Automaton L) (n : Nat) (progress : Progress L) (a : Arrival L) : Prop where
  arrives : Arrives A a
  length_eq : a.trace.length = n
  mem_settled : a.state ∈ progress.settled
  le_of_at : ∀ d, progress.At a.state d → n ≤ d

theorem Invariant.follow (h : Invariant A n progress (⟨a.state, m.label, m.state⟩ :: unfollowed))
    (ha : Settling A n progress a) (hmove : A.Moves a.state m.label m.state) :
    Invariant A n (follow a progress m) unfollowed ∧ Settling A n (follow a progress m) a := by
  have hlength : (a.along m).trace.length = n + m.label.toList.length := by
    rw [length_along, ha.length_eq]
  by_cases hwithin : progress.Within m.state (a.along m).trace.length
  · rw [follow_of_within hwithin]
    exact ⟨h.drop ha.le_of_at (hlength ▸ hwithin), ha⟩
  · rw [follow_of_not_within hwithin]
    have hle : n ≤ (a.along m).trace.length := by omega
    have hfar (d : Nat) (hd : (progress.enter (a.along m) m.label).At a.state d) : n ≤ d :=
      ha.le_of_at d (h.at_of_at_enter hmove.target_lt hle hwithin ha.mem_settled hd)
    have henter := h.enter (ha.arrives.along hmove) hmove.target_lt hlength hwithin
    have hnew := henter.waiting_within (a.along m) (mem_waiting_enter.mpr (Or.inl rfl))
    refine ⟨henter.drop hfar (hlength ▸ hnew), ha.arrives, ha.length_eq, ?_, hfar⟩
    rw [settled_enter]
    exact ha.mem_settled

theorem Invariant.follow_all
    (h : Invariant A n progress (moves.map fun m => ⟨a.state, m.label, m.state⟩))
    (ha : Settling A n progress a) (hmoves : ∀ m ∈ moves, A.Moves a.state m.label m.state) :
    Invariant A n (moves.foldl (ShortestWord.follow a) progress) [] := by
  induction moves generalizing progress with
  | nil => exact h
  | cons m moves ih =>
      obtain ⟨hmove, hmoves⟩ := List.forall_mem_cons.mp hmoves
      obtain ⟨hfollow, ha⟩ := h.follow ha hmove
      exact ih hfollow ha hmoves

/-- The next arrival is taken, and its state becomes one of the settled ones, if it was not
before. -/
theorem Invariant.take (h : Invariant A n progress []) (hcurrent : progress.current = a :: rest)
    {settled : LookupSet Nat} (hmem : ∀ p, p ∈ settled ↔ p = a.state ∨ p ∈ progress.settled)
    (hterminal : A.isTerminal a.state = false) :
    Invariant A n { progress with current := rest, settled := settled }
      (A.transitionsFrom a.state) := by
  have hwaiting (b : Arrival L) : b ∈ progress.waiting ↔ b = a ∨ b ∈ rest ++ progress.later := by
    rw [Progress.waiting, hcurrent, List.cons_append, List.mem_cons]
  have ha := (hwaiting a).mpr (Or.inl rfl)
  constructor
  case size_eq => exact h.size_eq
  case length_current =>
    exact fun b hb => h.length_current b (hcurrent ▸ List.mem_cons_of_mem a hb)
  case length_later => exact h.length_later
  case arrives => exact fun b hb => h.arrives b ((hwaiting b).mpr (Or.inr hb))
  case waiting_within => exact fun b hb => h.waiting_within b ((hwaiting b).mpr (Or.inr hb))
  case initial_within => exact h.initial_within
  case settled_within =>
    intro p hp
    rcases (hmem p).mp hp with rfl | hp
    · have hwithin := h.waiting_within a ha
      rwa [h.length_current a (hcurrent ▸ List.mem_cons_self)] at hwithin
    · exact h.settled_within p hp
  case known =>
    intro q d hd
    rcases h.known q d hd with hq | ⟨b, hb, rfl, hle⟩
    · exact Or.inl ((hmem q).mpr (Or.inr hq))
    · rcases (hwaiting b).mp hb with rfl | hb
      · exact Or.inl ((hmem b.state).mpr (Or.inl rfl))
      · exact Or.inr ⟨b, hb, rfl, hle⟩
  case not_terminal =>
    intro p hp
    rcases (hmem p).mp hp with rfl | hp
    · exact hterminal
    · exact h.not_terminal p hp
  case followed =>
    intro p hp d hd l q hmove
    rcases (hmem p).mp hp with rfl | hp
    · exact Or.inl (List.mem_map.mpr ⟨⟨l, q⟩, hmove, rfl⟩)
    · exact Or.inr ((h.followed p hp d hd l q hmove).resolve_left List.not_mem_nil)

theorem Invariant.skip (h : Invariant A n progress []) (hcurrent : progress.current = a :: rest)
    (hsettled : a.state ∈ progress.settled) :
    Invariant A n { progress with current := rest } [] := by
  have hmem (p : Nat) : p ∈ progress.settled ↔ p = a.state ∨ p ∈ progress.settled :=
    (or_iff_right_of_imp fun hp => hp ▸ hsettled).symm
  have htake := h.take hcurrent hmem (h.not_terminal _ hsettled)
  exact { htake with followed := h.followed }

/-- The state of the next arrival is settled, and then its moves are followed. -/
theorem Invariant.settle (h : Invariant A n progress []) (hcurrent : progress.current = a :: rest)
    (hunsettled : a.state ∉ progress.settled) (hterminal : A.isTerminal a.state = false) :
    Invariant A n
      ((A.outgoing a.state).toList.foldl (ShortestWord.follow a)
        { progress with current := rest, settled := progress.settled.insert a.state }) [] := by
  have ha : a ∈ progress.waiting := List.mem_append_left _ (hcurrent ▸ List.mem_cons_self)
  have htake := h.take hcurrent (fun p => LookupSet.mem_insert_iff) hterminal
  refine htake.follow_all ⟨h.arrives a ha, ?_, LookupSet.mem_insert_iff.mpr (Or.inl rfl), ?_⟩
    fun m hm => hm
  · exact h.length_current a (hcurrent ▸ List.mem_cons_self)
  · intro d hd
    rcases h.known a.state d hd with hsettled | ⟨b, hb, -, hle⟩
    · exact absurd hsettled hunsettled
    · exact (h.le_length hb).trans hle

/-- When a layer is used up, the next one becomes current. -/
theorem Invariant.next_layer (h : Invariant A n progress []) (hcurrent : progress.current = []) :
    Invariant A (n + 1) { progress with current := progress.later.reverse, later := [] } [] := by
  have hwaiting (b : Arrival L) : b ∈ progress.later.reverse ++ [] ↔ b ∈ progress.waiting := by
    rw [List.append_nil, List.mem_reverse, Progress.waiting, hcurrent, List.nil_append]
  constructor
  case size_eq => exact h.size_eq
  case length_current => exact fun b hb => h.length_later b (List.mem_reverse.mp hb)
  case length_later => exact fun b hb => absurd hb List.not_mem_nil
  case arrives => exact fun b hb => h.arrives b ((hwaiting b).mp hb)
  case waiting_within => exact fun b hb => h.waiting_within b ((hwaiting b).mp hb)
  case initial_within => exact h.initial_within
  case settled_within => exact fun p hp => (h.settled_within p hp).mono (Nat.le_succ n)
  case known =>
    intro q d hd
    refine (h.known q d hd).imp_right ?_
    rintro ⟨b, hb, hstate, hle⟩
    exact ⟨b, (hwaiting b).mpr hb, hstate, hle⟩
  case not_terminal => exact h.not_terminal
  case followed => exact h.followed

/-- Before anything is settled the initial states wait at distance zero. -/
theorem invariant_begin (A : Automaton L) : Invariant A 0 (begin A) [] := by
  have hat {q d : Nat} : (begin A).At q d ↔ A.isInitial q = true ∧ d = 0 := by
    rw [Progress.At, begin, List.getElem?_toArray, List.getElem?_map, Automaton.states]
    by_cases hq : q < A.size
    · rw [List.getElem?_range hq, Option.map_some, Option.some_inj]
      split
      · rename_i hinitial
        simp [hinitial, eq_comm]
      · rename_i hinitial
        simp [hinitial]
    · rw [List.getElem?_eq_none (by simpa using hq)]
      refine iff_of_false (by simp) fun h => hq (Automaton.lt_size_of_isInitial h.1)
  have hwaiting {a : Arrival L} :
      a ∈ (begin A).waiting ↔ ∃ p, A.isInitial p = true ∧ ⟨p, []⟩ = a := by
    simp only [Progress.waiting, begin, List.append_nil, List.mem_map, OrderedSet.mem_toList,
      Automaton.mem_initials]
  have hsettled (p : Nat) : p ∉ (begin A).settled := by simp [begin]
  constructor
  case size_eq => simp [begin, Automaton.states]
  case length_current =>
    intro a ha
    obtain ⟨p, -, rfl⟩ := hwaiting.mp (List.mem_append_left _ ha)
    rfl
  case length_later => exact fun a ha => absurd ha List.not_mem_nil
  case arrives =>
    intro a ha
    obtain ⟨p, hp, rfl⟩ := hwaiting.mp ha
    exact ⟨p, hp, Run.done p⟩
  case waiting_within =>
    intro a ha
    obtain ⟨p, hp, rfl⟩ := hwaiting.mp ha
    exact ⟨0, le_rfl, hat.mpr ⟨hp, rfl⟩⟩
  case initial_within => exact fun p hp => ⟨0, le_rfl, hat.mpr ⟨hp, rfl⟩⟩
  case settled_within => exact fun p hp => absurd hp (hsettled p)
  case known =>
    intro q d hd
    exact Or.inr ⟨⟨q, []⟩, hwaiting.mpr ⟨q, (hat.mp hd).1, rfl⟩, rfl, Nat.zero_le d⟩
  case not_terminal => exact fun p hp => absurd hp (hsettled p)
  case followed => exact fun p hp => absurd hp (hsettled p)

end Invariant

end ShortestWord

end FiniteState
