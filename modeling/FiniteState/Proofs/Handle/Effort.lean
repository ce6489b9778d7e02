import FiniteState.Proofs.Handle.Journal
import FiniteState.Proofs.Relation.Attempt
import FiniteState.Proofs.Relation.Effort
/-!
How long a relation takes to answer.  However many questions were asked, the search for the next
answer comes to an end, with hardly more calls inside each other than there are pairs of states, and
all searches together start fewer proofs than a bound that depends on the sizes of the two automata
only.
-/

namespace FiniteState

universe u

variable {L : Type u} [Label L]

namespace Coinductive

variable {r : Coinductive L} {question : Question} {limit : Nat}

section Attempt

/-- Whether two states are related, by a search under a limit. -/
def attemptAsk (r : Coinductive L) (limit : Nat) (s t : Handle) : Attempt :=
  if r.left.contains s && r.right.contains t then r.matching.attempt limit (s.index, t.index)
  else pure false

def attemptAskSets (r : Coinductive L) (limit : Nat) (s t : HandleSet) : Attempt := do
  if ← s.toList.allM fun p => t.toList.anyM fun q => r.attemptAsk limit p q then
    if r.matching.twoSided then
      t.toList.allM fun q => s.toList.anyM fun p => r.attemptAsk limit p q
    else pure true
  else pure false

def attempt (r : Coinductive L) (limit : Nat) : Question → Attempt
  | .states s t => r.attemptAsk limit s t
  | .sets s t => r.attemptAskSets limit s t

/-- The answer to a question, and the relation afterwards. -/
def reply (r : Coinductive L) : Question → Bool × Coinductive L
  | .states s t => r.equivalent s t
  | .sets s t => r.equivalentSets s t

theorem reply_eq : r.reply question = r.pose (r.recorded question).ask := by
  cases question with
  | states s t => rw [reply, recorded, ask_recordedAsk, equivalent]
  | sets s t => rw [reply, recorded, ask_recordedAskSets, equivalentSets]

/-- The journal of one more question comes after that of the others. -/
theorem journal_concat (history : List Question) :
    r.journal (history ++ [question]) =
      r.journal history ++ ((r.after history).recorded question).journal [] (r.after history).memo := by
  induction history generalizing r with
  | nil => exact List.append_nil _
  | cons first rest ih =>
      rw [List.cons_append, journal, journal, ih, after_cons, List.append_assoc]

/-- Every question is answered as it is within the depth, if the limit allows it. -/
theorem Sound.attempt_endsAs (h : r.Sound) (hlimit : r.matching.space.length < limit)
    (question : Question) :
    Attempt.EndsAs r.matching.Needs r.matching.space (r.matching.space.length + 1)
      (r.attempt limit question) (r.recorded question) := by
  have horderly (s t : Handle) := h.orderly_recorded (.states s t)
  have hask (s t : Handle) : Attempt.EndsAs r.matching.Needs r.matching.space
      (r.matching.space.length + 1) (r.attemptAsk limit s t) (r.recordedAsk s t) := by
    unfold attemptAsk recordedAsk
    split
    · rename_i hcontains
      rw [r.matching.length_space] at hlimit ⊢
      exact Matching.attempt_endsAs (h.mem_space hcontains) hlimit
    · exact Attempt.endsAs_answer false
  have hforth (t : HandleSet) (p : Handle) := Attempt.endsAs_some (l := t.toList)
    (fun q _ => hask p q) fun q _ => horderly p q
  have hback (s : HandleSet) (q : Handle) := Attempt.endsAs_some (l := s.toList)
    (fun p _ => hask p q) fun p _ => horderly p q
  cases question with
  | states s t => exact hask s t
  | sets s t =>
      refine (Attempt.endsAs_every (fun p _ => hforth t p) fun p _ => ?_).and ?_ ?_
      · exact Recorded.orderly_some fun q _ => horderly p q
      · exact Recorded.orderly_every fun p _ => Recorded.orderly_some fun q _ => horderly p q
      · split
        · refine Attempt.endsAs_every (fun q _ => hback s q) fun q _ => ?_
          exact Recorded.orderly_some fun p _ => horderly p q
        · exact Attempt.endsAs_answer true

end Attempt

section Bounds

/-- What the answers to some questions cost, and what the answer to one more.  Under every limit
above the number of pairs, searches come to an end, with the answer, the memory and the journal of
`r`; proofs that are under way at the same time are about different pairs; what fails has not been
refuted before; and there is a bound for the number of proofs that are started. -/
structure EndsWithin (r : Coinductive L) (history : List Question) (pairs : Nat) : Prop where
  ends : ∀ question, ∃ moments,
    (∀ limit > pairs, ((r.after history).attempt limit question).run
        (.begin (r.after history).memo) =
      some (((r.after history).reply question).1,
        ⟨[], ((r.after history).reply question).2.memo, moments⟩)) ∧
      r.journal (history ++ [question]) = r.journal history ++ moments
  nodup_opened : ∀ x ∈ r.journal history, (x.opened.map OpenProof.pair).Nodup
  length_opened_le : ∀ x ∈ r.journal history, x.opened.length ≤ pairs
  pairwise_failed : (r.journal history).Pairwise fun y x =>
    ∀ pair, x.event.failed? = some pair → pair ∉ y.memo.refuted
  failed : ∀ x ∈ r.journal history, ∀ pair, x.event.failed? = some pair →
    pair ∉ r.memo.refuted ∧ pair ∈ x.memo.refuted
  starts_le : starts (r.journal history) ≤ pairs * (pairs + 1)

theorem Sound.endsWithin (h : r.Sound) (history : List Question) :
    r.EndsWithin history r.matching.space.length := by
  have hchained := r.chained_journal history
  have hinOrder := h.inOrder_journal history
  have hsound : ∀ x ∈ r.journal history, x.memo.Sound r.matching.Needs r.matching.space
      (x.opened.map OpenProof.pair) := fun x hx => (hinOrder x hx).sound
  have hnested := hchained.nested nested_nil
  obtain ⟨hafter, -, -, hmatching⟩ := h.after history
  constructor
  · intro question
    refine ⟨((r.after history).recorded question).journal [] (r.after history).memo,
      fun limit hlimit => ?_, journal_concat history⟩
    have hready : (r.after history).memo.Ready (r.after history).matching.Needs
        (r.after history).matching.space ((r.after history).matching.space.length + 1) [] :=
      ⟨hafter.memo, by omega⟩
    rw [← hmatching] at hlimit
    rw [hafter.attempt_endsAs hlimit question (.begin _) hready, reply_eq]
    rfl
  · exact fun x hx => (hnested x hx).nodup (hsound x hx).nodup
  · exact fun x hx => (hnested x hx).length_le (hsound x hx)
  · exact hchained.pairwise_failed nested_nil h.memo hsound
  · intro x hx pair hfailed
    obtain ⟨hnew, -, hrefuted⟩ := hchained.failed nested_nil h.memo hsound x hx pair hfailed
    exact ⟨hnew, hrefuted⟩
  · have hstarts := hchained.starts_le nested_nil h.memo hsound
    have hfailures := hchained.length_failures_le nested_nil h.memo hsound
    have hlog := hafter.memo.length_log_le
    rw [hmatching] at hlog
    calc starts (r.journal history)
        ≤ r.matching.space.length * (failures (r.journal history)).length +
            (r.after history).memo.log.length := Nat.le_trans (Nat.le_add_right _ _) hstarts
      _ ≤ r.matching.space.length * r.matching.space.length + r.matching.space.length :=
          Nat.add_le_add (Nat.mul_le_mul_left _ hfailures) hlog
      _ = r.matching.space.length * (r.matching.space.length + 1) := (Nat.mul_succ _ _).symm

end Bounds

end Coinductive

/-- The search for a bisimulation or a simulation comes to an end, however many questions were asked
and however many calls may be inside each other, if they are more than the `N` pairs of states.  At
most `N` proofs are under way at the same time, and all questions together start at most
`N * (N + 1)`. -/
theorem searches_end_within_bounds (left right : Tagged L) (history : List Question) :
    (Coinductive.bisimulation left right).EndsWithin history
        (left.automaton.size * right.automaton.size) ∧
      (Coinductive.simulation left right).EndsWithin history
        (left.automaton.size * right.automaton.size) ∧
      (Coinductive.weakBisimulation left right).EndsWithin history
        (left.automaton.size * right.automaton.size) := by
  have hends {r : Coinductive L} (h : r.Sound) : r.EndsWithin history
      (r.left.automaton.size * r.right.automaton.size) := by
    rw [← h.size_left, ← h.size_right, ← r.matching.length_space]
    exact h.endsWithin history
  refine ⟨?_, ?_, ?_⟩
  · exact hends (Coinductive.sound_bisimulation left right)
  · exact hends (Coinductive.sound_simulation left right)
  · exact hends (Coinductive.sound_weakBisimulation left right)

end FiniteState
