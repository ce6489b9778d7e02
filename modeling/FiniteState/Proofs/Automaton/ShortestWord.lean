import FiniteState.Proofs.Automaton.Arrivals
import Mathlib.Algebra.BigOperators.Group.Finset.Basic
import Mathlib.Data.Finset.Basic
/-!
The search for a shortest word is exact.  As no terminal state has been settled, some arrival waits
on every accepting run, no farther away than the run is long; and as the nearest arrivals are taken
first, the first one in a terminal state has read a shortest word.  Every settled state spends the
moves out of it, so there are arrivals enough for all of them.
-/

namespace FiniteState

universe u

variable {L : Type u}

/-- The word has the property, and no word that has it is shorter. -/
structure IsShortest (p : List L → Prop) (w : List L) : Prop where
  holds : p w
  length_le : ∀ v, p v → w.length ≤ v.length

namespace ShortestWord

variable [Label L] {A : Automaton L} {progress : Progress L} {a : Arrival L} {p q d n : Nat}
  {w : List L}

section Search

/-- On a run from a known state either the last state is settled, or some arrival waits that is no
farther away than the end of the run. -/
theorem Invariant.settled_or_waiting (h : Invariant A n progress []) (hrun : Run A.Moves p w q)
    (hp : progress.Within p d) :
    q ∈ progress.settled ∨ ∃ a ∈ progress.waiting, a.trace.length ≤ d + w.length := by
  induction hrun using Run.inductionOnMoves generalizing d with
  | done p =>
      obtain ⟨known, hle, hat⟩ := hp
      refine (h.known p known hat).imp_right ?_
      rintro ⟨a, ha, -, hlength⟩
      exact ⟨a, ha, by omega⟩
  | step p r q l w hmove _ ih =>
      obtain ⟨known, hle, hat⟩ := hp
      rcases h.known p known hat with hsettled | ⟨a, ha, -, hlength⟩
      · have hr := (h.followed p hsettled known hat l r hmove).resolve_left List.not_mem_nil
        refine (ih hr).imp_right ?_
        rintro ⟨a, ha, hlength⟩
        exact ⟨a, ha, by rw [List.length_append]; omega⟩
      · exact Or.inr ⟨a, ha, by omega⟩

/-- As long as no terminal state is settled, some arrival waits for every accepted word, and it has
read no more than the word. -/
theorem Invariant.exists_waiting (h : Invariant A n progress []) (hw : w ∈ A.language) :
    ∃ a ∈ progress.waiting, a.trace.length ≤ w.length := by
  obtain ⟨i, hi, t, hrun, ht⟩ := hw
  rcases h.settled_or_waiting hrun (h.initial_within i hi) with hsettled | ⟨a, ha, hlength⟩
  · rw [h.not_terminal t hsettled] at ht
    cases ht
  · exact ⟨a, ha, by omega⟩

/-- The next arrival belongs to the current layer, or to the next one if nothing waits in it. -/
theorem Invariant.exists_of_takeNext {later : Progress L} (h : Invariant A n progress [])
    (hnext : takeNext progress = some (a, later)) :
    ∃ k, Invariant A k { later with current := a :: later.current } [] ∧
      later.settled = progress.settled ∧
      later.waiting.length + 1 = progress.waiting.length := by
  rw [takeNext] at hnext
  split at hnext
  · rename_i rest hcurrent
    cases hnext
    refine ⟨n, hcurrent ▸ h, rfl, ?_⟩
    simp [Progress.waiting, hcurrent, Nat.add_right_comm]
  · rename_i hcurrent
    split at hnext
    · rename_i rest hlater
      cases hnext
      refine ⟨n + 1, hlater ▸ h.next_layer hcurrent, rfl, ?_⟩
      have hlength := congrArg List.length hlater
      rw [List.length_reverse, List.length_cons] at hlength
      rw [Progress.waiting, Progress.waiting, hcurrent, List.nil_append, List.append_nil, hlength]
    · cases hnext

omit [Label L] in
theorem waiting_eq_nil_of_takeNext (h : takeNext progress = none) : progress.waiting = [] := by
  rw [takeNext] at h
  split at h
  · cases h
  · rename_i hcurrent
    split at h
    · cases h
    · rename_i hlater
      rw [Progress.waiting, hcurrent, List.reverse_eq_nil_iff.mp hlater, List.append_nil]

end Search

section Budget

/-- The number of moves out of states that are not settled. -/
def openMoves (A : Automaton L) (settled : LookupSet Nat) : Nat :=
  ∑ p ∈ (Finset.range A.size).filter (fun p => settled.contains p = false), (A.outgoing p).size

theorem openMoves_insert {settled : LookupSet Nat} (hp : p < A.size) (hunsettled : p ∉ settled) :
    (A.outgoing p).size + openMoves A (settled.insert p) = openMoves A settled := by
  have hcontains (q : Nat) (S : LookupSet Nat) : S.contains q = false ↔ q ∉ S :=
    Bool.eq_false_iff.trans Iff.rfl
  have herase : (Finset.range A.size).filter (fun q => (settled.insert p).contains q = false) =
      ((Finset.range A.size).filter fun q => settled.contains q = false).erase p := by
    ext q
    simp only [Finset.mem_filter, Finset.mem_erase, hcontains, LookupSet.mem_insert_iff, not_or]
    exact and_left_comm
  have hmem : p ∈ (Finset.range A.size).filter fun q => settled.contains q = false :=
    Finset.mem_filter.mpr ⟨Finset.mem_range.mpr hp, (hcontains p settled).mpr hunsettled⟩
  rw [openMoves, openMoves, herase]
  exact Finset.add_sum_erase _ (fun q => (A.outgoing q).size) hmem

theorem openMoves_empty (A : Automaton L) : openMoves A ∅ = A.transitionCount := by
  have hall : (Finset.range A.size).filter (fun p => (∅ : LookupSet Nat).contains p = false) =
      Finset.range A.size :=
    Finset.filter_true_of_mem fun p _ => Std.ExtTreeSet.contains_empty
  rw [openMoves, hall, ← Automaton.length_transitions, Automaton.transitions, List.length_flatMap]
  simp only [Automaton.transitionsFrom, List.length_map]
  rfl

/-- The number of arrivals that are still to come is bounded by those that wait and the open
moves. -/
def budget (A : Automaton L) (progress : Progress L) : Nat :=
  progress.waiting.length + openMoves A progress.settled

omit [Label L] in
theorem settled_foldl_follow (moves : List (Move L)) (progress : Progress L) :
    (moves.foldl (follow a) progress).settled = progress.settled := by
  induction moves generalizing progress with
  | nil => rfl
  | cons m moves ih =>
      rw [List.foldl_cons, ih]
      by_cases h : progress.Within m.state (a.along m).trace.length
      · rw [follow_of_within h]
      · rw [follow_of_not_within h, settled_enter]

omit [Label L] in
theorem length_waiting_foldl_follow_le (moves : List (Move L)) (progress : Progress L) :
    (moves.foldl (follow a) progress).waiting.length ≤ progress.waiting.length + moves.length := by
  induction moves generalizing progress with
  | nil => exact le_rfl
  | cons m moves ih =>
      have hrest := ih (follow a progress m)
      rw [List.foldl_cons, List.length_cons]
      by_cases h : progress.Within m.state (a.along m).trace.length
      · rw [follow_of_within h] at hrest ⊢
        omega
      · rw [follow_of_not_within h, length_waiting_enter] at hrest
        rw [follow_of_not_within h]
        omega

theorem budget_foldl_follow_le (ha : a.state < A.size) (hunsettled : a.state ∉ progress.settled) :
    budget A ((A.outgoing a.state).toList.foldl (follow a)
      { progress with settled := progress.settled.insert a.state }) ≤ budget A progress := by
  have hopen := openMoves_insert ha hunsettled
  have hlength := length_waiting_foldl_follow_le (a := a) (A.outgoing a.state).toList
    { progress with settled := progress.settled.insert a.state }
  rw [budget, settled_foldl_follow, budget, ← hopen]
  have hsize : (A.outgoing a.state).size = (A.outgoing a.state).toList.length := rfl
  have hwaiting : ({ progress with settled := progress.settled.insert a.state } :
      Progress L).waiting = progress.waiting := rfl
  rw [hwaiting] at hlength
  dsimp only
  omega

/-- There is at most one arrival for each initial state and for each transition. -/
theorem budget_begin_le (A : Automaton L) : budget A (begin A) ≤ A.size + A.transitionCount := by
  have hinitials : A.initials.toList.length ≤ A.states.length := by
    refine (List.subperm_of_subset A.initials.toList_nodup fun p hp => ?_).length_le
    exact Automaton.mem_states.mpr (Automaton.lt_size_of_isInitial (Automaton.mem_initials.mp hp))
  have hwaiting : (begin A).waiting.length = A.initials.toList.length := by
    simp [Progress.waiting, begin]
  have hopen : openMoves A (begin A).settled = A.transitionCount := openMoves_empty A
  rw [Automaton.states, List.length_range] at hinitials
  rw [budget, hwaiting, hopen]
  omega

end Budget

section Result

/-- A word that was read on the way to a terminal state is a shortest one, if the arrival is one of
the nearest that wait. -/
theorem Invariant.isShortest (h : Invariant A n progress []) (ha : a ∈ progress.current)
    (hterminal : A.isTerminal a.state = true) :
    IsShortest (· ∈ A.language) a.trace.reverse := by
  obtain ⟨i, hi, hrun⟩ := h.arrives a (List.mem_append_left _ ha)
  refine ⟨⟨i, hi, a.state, hrun, hterminal⟩, fun v hv => ?_⟩
  obtain ⟨b, hb, hle⟩ := h.exists_waiting hv
  rw [List.length_reverse, h.length_current a ha]
  exact (h.le_length hb).trans hle

/-- A search with arrivals enough finds a shortest word, if there is one at all. -/
theorem Invariant.finds_shortest {arrivals : Nat} (h : Invariant A n progress [])
    (harrivals : budget A progress < arrivals) :
    (search A arrivals progress = none → ∀ w, w ∉ A.language) ∧
      ∀ w, search A arrivals progress = some w → IsShortest (· ∈ A.language) w := by
  induction arrivals generalizing n progress with
  | zero => omega
  | succ arrivals ih =>
      rw [search]
      cases hnext : takeNext progress with
      | none =>
          refine ⟨fun _ w hw => ?_, nofun⟩
          obtain ⟨a, ha, -⟩ := h.exists_waiting hw
          rw [waiting_eq_nil_of_takeNext hnext] at ha
          exact absurd ha List.not_mem_nil
      | some taken =>
          obtain ⟨a, later⟩ := taken
          obtain ⟨k, hk, hsettled, hlength⟩ := h.exists_of_takeNext hnext
          have hbudget : budget A later < arrivals := by
            rw [budget] at harrivals ⊢
            rw [hsettled]
            omega
          dsimp only
          by_cases hmem : later.settled.contains a.state = true
          · rw [if_pos hmem]
            exact ih (hk.skip rfl hmem) hbudget
          · rw [if_neg hmem]
            by_cases hterminal : A.isTerminal a.state = true
            · rw [if_pos hterminal]
              refine ⟨nofun, fun w hw => ?_⟩
              cases hw
              exact hk.isShortest List.mem_cons_self hterminal
            · rw [if_neg hterminal]
              have hlt := (hk.arrives a List.mem_cons_self).lt_size
              exact ih (hk.settle rfl hmem (Bool.eq_false_iff.mpr hterminal))
                ((budget_foldl_follow_le hlt hmem).trans_lt hbudget)

end Result

end ShortestWord

namespace Automaton

variable [Label L] {A : Automaton L} {w : List L}

/-- What is found is a shortest accepted word. -/
theorem isShortest_of_shortestWord? (h : A.shortestWord? = some w) :
    IsShortest (· ∈ A.language) w :=
  ((ShortestWord.invariant_begin A).finds_shortest
    (Nat.lt_succ_of_le (ShortestWord.budget_begin_le A))).2 w h

/-- Nothing is found exactly if no word is accepted. -/
theorem shortestWord?_eq_none_iff : A.shortestWord? = none ↔ ∀ w, w ∉ A.language := by
  constructor
  · exact ((ShortestWord.invariant_begin A).finds_shortest
      (Nat.lt_succ_of_le (ShortestWord.budget_begin_le A))).1
  · intro h
    refine Option.eq_none_iff_forall_ne_some.mpr fun w hw => ?_
    exact h w (isShortest_of_shortestWord? hw).holds

end Automaton

end FiniteState
