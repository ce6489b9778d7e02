import FiniteState.Proofs.Handle.Simulation
import FiniteState.Proofs.Handle.WeakBisimulation
import FiniteState.Proofs.Relation.Bookkeeping
/-!
The journal of a relation that is asked one question after the other.  From one end to the other its
memory is consistent, and whenever no proof is under way, the assumed pairs are a relation of the
kind that is searched for.
-/

namespace FiniteState

universe u

variable {L : Type u} [Label L]

section Memory

/-- The assumed pairs are those in the log, each of which stands there once; none of them is
refuted, and no refuted pair is related. -/
structure Memo.Consistent (related : Nat → Nat → Prop) (memo : Memo) : Prop where
  mem_assumed : ∀ pair, pair ∈ memo.assumed ↔ pair ∈ memo.log
  nodup : memo.log.Nodup
  not_mem_refuted : ∀ pair ∈ memo.assumed, pair ∉ memo.refuted
  unrelated : ∀ pair ∈ memo.refuted, ¬ related pair.1 pair.2

variable {needs : (StatePair → Prop) → StatePair → Prop} {space opened : List StatePair}
  {memo : Memo} {related : Nat → Nat → Prop}

theorem Memo.Sound.consistent (h : memo.Sound needs space opened)
    (hrelated : ∀ p q, related p q → Related needs (p, q)) : memo.Consistent related where
  mem_assumed := h.mem_assumed
  nodup := h.nodup
  not_mem_refuted pair hpair := h.disjoint pair ((h.mem_assumed pair).mp hpair)
  unrelated pair hpair := mt (hrelated pair.1 pair.2) (h.unrelated pair hpair)

/-- When no proof is open, the assumed pairs have what they need among each other. -/
theorem Memo.Sound.needs_assumed (h : memo.Sound needs space []) :
    ∀ x, x ∈ memo.assumed → needs (· ∈ memo.assumed) x := by
  have hassumed : (· ∈ memo.assumed) = (· ∈ memo.log) := funext fun x => propext (h.mem_assumed x)
  rw [hassumed]
  exact fun x hx => h.justified x ((h.mem_assumed x).mp hx) List.not_mem_nil

end Memory

namespace Coinductive

variable {r : Coinductive L}

section Definitions

def recordedAsk (r : Coinductive L) (s t : Handle) : Recorded :=
  if r.left.contains s && r.right.contains t then
    r.matching.recordedSearch (r.matching.left.size * r.matching.right.size + 1) (s.index, t.index)
  else Recorded.answer false

def recordedAskSets (r : Coinductive L) (s t : HandleSet) : Recorded :=
  (Recorded.every (fun p => Recorded.some (fun q => r.recordedAsk p q) t.toList) s.toList).and
    (if r.matching.twoSided then
      Recorded.every (fun q => Recorded.some (fun p => r.recordedAsk p q) s.toList) t.toList
    else Recorded.answer true)

def recorded (r : Coinductive L) : Question → Recorded
  | .states s t => r.recordedAsk s t
  | .sets s t => r.recordedAskSets s t

/-- What happens to the memory while some questions are answered one after the other. -/
def journal (r : Coinductive L) : List Question → List Moment
  | [] => []
  | question :: rest =>
      (r.recorded question).journal [] r.memo ++
        (r.pose (r.recorded question).ask).2.journal rest

end Definitions

section Recorded

theorem ask_recordedAsk (s t : Handle) : (r.recordedAsk s t).ask = r.ask s t := by
  unfold recordedAsk ask
  split
  · exact Matching.ask_recordedSearch
  · rfl

theorem ask_recordedAskSets (s t : HandleSet) : (r.recordedAskSets s t).ask = r.askSets s t := by
  simp only [recordedAskSets, askSets, Recorded.and, Recorded.ask_every, Recorded.ask_some,
    ask_recordedAsk]
  split
  · simp only [Recorded.ask_every, Recorded.ask_some, ask_recordedAsk]
  · rfl

theorem after_cons (question : Question) (rest : List Question) :
    r.after (question :: rest) = (r.pose (r.recorded question).ask).2.after rest := by
  cases question with
  | states s t => rw [recorded, ask_recordedAsk, after, equivalent]
  | sets s t => rw [recorded, ask_recordedAskSets, after, equivalentSets]

theorem gapless_recorded (question : Question) : (r.recorded question).Gapless := by
  have hask (s t : Handle) : (r.recordedAsk s t).Gapless := by
    unfold recordedAsk
    split
    · exact r.matching.gapless_recordedSearch _ _
    · exact Recorded.gapless_answer false
  cases question with
  | states s t => exact hask s t
  | sets s t =>
      refine (Recorded.gapless_every (fun p => Recorded.gapless_some (hask p) _) _).and ?_
      split
      · exact Recorded.gapless_every (fun q => Recorded.gapless_some (fun p => hask p q) _) _
      · exact Recorded.gapless_answer true

theorem Sound.orderly_recorded (h : r.Sound) (question : Question) :
    (r.recorded question).Orderly r.matching.Needs r.matching.space
      (r.matching.space.length + 1) := by
  have hask (s t : Handle) : (r.recordedAsk s t).Orderly r.matching.Needs r.matching.space
      (r.matching.space.length + 1) := by
    unfold recordedAsk
    split
    · rename_i hcontains
      rw [r.matching.length_space]
      exact r.matching.orderly_recordedSearch _ (h.mem_space hcontains)
    · exact Recorded.orderly_answer false
  cases question with
  | states s t => exact hask s t
  | sets s t =>
      refine (Recorded.orderly_every fun p _ => Recorded.orderly_some fun q _ => hask p q).and ?_
      split
      · exact Recorded.orderly_every fun q _ => Recorded.orderly_some fun p _ => hask p q
      · exact Recorded.orderly_answer true

end Recorded

section Journal

/-- The journal leaves nothing out. -/
theorem chained_journal (history : List Question) :
    Chained [] r.memo (r.journal history) [] (r.after history).memo := by
  induction history generalizing r with
  | nil => exact .nil
  | cons question rest ih =>
      rw [after_cons]
      exact (gapless_recorded question [] r.memo).append
        (ih (r := (r.pose (r.recorded question).ask).2))

/-- At every moment the memory is in order. -/
theorem Sound.inOrder_journal (h : r.Sound) (history : List Question) :
    ∀ x ∈ r.journal history, x.InOrder r.matching.Needs r.matching.space := by
  induction history generalizing r with
  | nil => exact fun x hx => absurd hx List.not_mem_nil
  | cons question rest ih =>
      have horderly := h.orderly_recorded question
      have hready : r.memo.Ready r.matching.Needs r.matching.space (r.matching.space.length + 1)
          [] := ⟨h.memo, by omega⟩
      have hnext : (r.pose (r.recorded question).ask).2.Sound :=
        ⟨(horderly.ready [] r.memo hready).sound, h.size_left, h.size_right⟩
      intro x hx
      rcases List.mem_append.mp hx with hx | hx
      · exact horderly.inOrder [] r.memo hready x hx
      · exact ih hnext x hx

/-- The memory while some questions are answered: it is always consistent; if a proof was started
and has failed, the assumptions are those from before; and when no proof is under way, the assumed
pairs are closed. -/
structure KeepsOrder (r : Coinductive L) (history : List Question) (related : Nat → Nat → Prop)
    (Closed : (Nat → Nat → Prop) → Prop) : Prop where
  chained : Chained [] r.memo (r.journal history) [] (r.after history).memo
  consistent : ∀ x ∈ r.journal history, x.memo.Consistent related
  restored : ∀ x ∈ r.journal history, ∀ pair before, x.event = .answered pair before false →
    pair ∉ before.refuted → pair ∉ before.assumed →
      x.memo.assumed = before.assumed ∧ x.memo.log = before.log ∧
        pair ∈ x.memo.refuted ∧ ∀ y ∈ before.refuted, y ∈ x.memo.refuted
  closed : ∀ x ∈ r.journal history, x.opened = [] → Closed fun p q => (p, q) ∈ x.memo.assumed
  consistent_after : (r.after history).memo.Consistent related
  closed_after : Closed fun p q => (p, q) ∈ (r.after history).memo.assumed

theorem Sound.keepsOrder {related : Nat → Nat → Prop} {Closed : (Nat → Nat → Prop) → Prop}
    (h : r.Sound) (hrelated : ∀ p q, related p q → Related r.matching.Needs (p, q))
    (hclosed : ∀ assumed : StatePair → Prop, (∀ x, assumed x → r.matching.Needs assumed x) →
      Closed fun p q => assumed (p, q))
    (history : List Question) : r.KeepsOrder history related Closed := by
  have hinOrder := h.inOrder_journal history
  obtain ⟨hafter, -, -, hmatching⟩ := h.after history
  have hmemo := hafter.memo
  rw [hmatching] at hmemo
  constructor
  · exact chained_journal history
  · exact fun x hx => (hinOrder x hx).sound.consistent hrelated
  · exact fun x hx => (hinOrder x hx).restored
  · intro x hx hopened
    have hsound := (hinOrder x hx).sound
    rw [hopened] at hsound
    exact hclosed _ hsound.needs_assumed
  · exact hmemo.consistent hrelated
  · exact hclosed _ hmemo.needs_assumed

end Journal

end Coinductive

/-- The memory of a search is in order at every moment, whatever was asked before.  Between two
questions the pairs that are assumed are a bisimulation or a simulation.  Weak bisimulation is
searched for between the automata without their silent moves. -/
theorem memory_is_in_order_at_every_moment (left right : Tagged L) (history : List Question) :
    (Coinductive.bisimulation left right).KeepsOrder history
        (Bisimilar left.automaton right.automaton)
        (IsBisimulation left.automaton right.automaton) ∧
      (Coinductive.simulation left right).KeepsOrder history
        (SimulatedBy left.automaton right.automaton)
        (IsSimulation left.automaton right.automaton) ∧
      (Coinductive.weakBisimulation left right).KeepsOrder history
        (WeaklyBisimilar left.automaton right.automaton)
        (IsBisimulation left.automaton.removeEpsilon right.automaton.removeEpsilon) := by
  refine ⟨?_, ?_, ?_⟩
  · exact (Coinductive.sound_bisimulation left right).keepsOrder
      (fun _ _ => Matching.related_iff_bisimilar.mpr)
      (fun _ => Matching.forall_needs_iff_isBisimulation.mp) history
  · exact (Coinductive.sound_simulation left right).keepsOrder
      (fun _ _ => Matching.related_iff_simulatedBy.mpr)
      (fun _ => Matching.forall_needs_iff_isSimulation.mp) history
  · exact (Coinductive.sound_weakBisimulation left right).keepsOrder
      (fun _ _ h => Matching.related_iff_bisimilar.mpr (weaklyBisimilar_iff.mp h))
      (fun _ => Matching.forall_needs_iff_isBisimulation.mp) history

end FiniteState
