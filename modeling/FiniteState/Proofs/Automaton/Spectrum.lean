import FiniteState.Proofs.Automaton.Residuals
import FiniteState.Proofs.Automaton.WeakBisimulation
/-!
The relations between states in the order of what they tell apart.  Bisimilar states are weakly
bisimilar and simulate each other; weakly bisimilar states read and accept the same words; a state
reads and accepts no more than a state that simulates it.  If moves are determined by what they read
and every state is useful, accepting no more is a simulation and accepting the same is a
bisimulation, so the relations collapse.
-/

namespace FiniteState

universe u

variable {L : Type u} [Label L]

namespace Automaton

variable {A : Automaton L} {p : Nat} {l : L} {w : List L}

/-- The words that can be read from `p`, no matter where reading them ends. -/
def readableFrom (A : Automaton L) (p : Nat) : Language L :=
  { w | ∃ q, Run A.Moves p w q }

/-- The words that can be read from an initial state, no matter where reading them ends. -/
def readable (A : Automaton L) : Language L :=
  { w | ∃ p, A.isInitial p = true ∧ w ∈ A.readableFrom p }

theorem nil_mem_readableFrom (A : Automaton L) (p : Nat) : [] ∈ A.readableFrom p :=
  ⟨p, Run.done p⟩

theorem run_cons_iff_reads {t : Nat} :
    Run A.Moves p (l :: w) t ↔ ∃ q, A.Reads p l q ∧ Run A.Moves q w t := by
  rw [Run.cons_iff]
  constructor
  · rintro ⟨r, q, hsilent, hmove, hrest⟩
    exact ⟨q, ⟨r, hsilent, hmove⟩, hrest⟩
  · rintro ⟨q, ⟨r, hsilent, hmove⟩, hrest⟩
    exact ⟨r, q, hsilent, hmove, hrest⟩

theorem cons_mem_readableFrom :
    l :: w ∈ A.readableFrom p ↔ ∃ q, A.Reads p l q ∧ w ∈ A.readableFrom q := by
  constructor
  · rintro ⟨t, hrun⟩
    obtain ⟨q, hreads, hrest⟩ := run_cons_iff_reads.mp hrun
    exact ⟨q, hreads, t, hrest⟩
  · rintro ⟨q, hreads, t, hrest⟩
    exact ⟨t, run_cons_iff_reads.mpr ⟨q, hreads, hrest⟩⟩

theorem nil_mem_languageFrom_iff_endsSilently : [] ∈ A.languageFrom p ↔ A.EndsSilently p :=
  Iff.rfl

theorem cons_mem_languageFrom_iff_reads :
    l :: w ∈ A.languageFrom p ↔ ∃ q, A.Reads p l q ∧ w ∈ A.languageFrom q := by
  constructor
  · rintro ⟨t, hrun, ht⟩
    obtain ⟨q, hreads, hrest⟩ := run_cons_iff_reads.mp hrun
    exact ⟨q, hreads, t, hrest, ht⟩
  · rintro ⟨q, hreads, t, hrest, ht⟩
    exact ⟨t, run_cons_iff_reads.mpr ⟨q, hreads, hrest⟩, ht⟩

end Automaton

variable {A B : Automaton L} {related : Nat → Nat → Prop} {p q : Nat} {w : List L}

section Simulation

namespace IsSimulation

theorem run (h : IsSimulation A B related) (hpq : related p q) {p' : Nat}
    (hrun : Run A.Moves p w p') : ∃ q', Run B.Moves q w q' ∧ related p' q' :=
  hrun.simulate related (fun p q l p' => h.forth p q l p') hpq

theorem endsSilently (h : IsSimulation A B related) (hpq : related p q) (hp : A.EndsSilently p) :
    B.EndsSilently q := by
  obtain ⟨p', hrun, hterminal⟩ := hp
  obtain ⟨q', hrun', hpq'⟩ := h.run hpq hrun
  exact ⟨q', hrun', h.terminal p' q' hpq' hterminal⟩

theorem reads (h : IsSimulation A B related) (hpq : related p q) {l : L} {p' : Nat}
    (hreads : A.Reads p l p') : ∃ q', B.Reads q l q' ∧ related p' q' := by
  obtain ⟨r, hsilent, hmove⟩ := hreads
  obtain ⟨s, hsilent', hrs⟩ := h.run hpq hsilent
  obtain ⟨q', hmove', hpq'⟩ := h.forth r s (some l) p' hrs hmove
  exact ⟨q', ⟨s, hsilent', hmove'⟩, hpq'⟩

end IsSimulation

theorem SimulatedBy.mem_readableFrom (h : SimulatedBy A B p q) (hw : w ∈ A.readableFrom p) :
    w ∈ B.readableFrom q := by
  obtain ⟨related, hrelated, hpq⟩ := h
  obtain ⟨p', hrun⟩ := hw
  obtain ⟨q', hrun', -⟩ := hrelated.run hpq hrun
  exact ⟨q', hrun'⟩

theorem SimulatedBy.mem_languageFrom (h : SimulatedBy A B p q) (hw : w ∈ A.languageFrom p) :
    w ∈ B.languageFrom q := by
  obtain ⟨related, hrelated, hpq⟩ := h
  obtain ⟨p', hrun, hterminal⟩ := hw
  obtain ⟨q', hrun', hpq'⟩ := hrelated.run hpq hrun
  exact ⟨q', hrun', hrelated.terminal p' q' hpq' hterminal⟩

end Simulation

section Bisimulation

/-- A bisimulation answers silent moves one by one, so it is a weak bisimulation as well. -/
theorem IsBisimulation.isWeakBisimulation (h : IsBisimulation A B related) :
    IsWeakBisimulation A B related := by
  have hforth := h.isSimulation
  have hback := h.symm.isSimulation
  constructor
  · intro p q hpq
    exact ⟨hforth.endsSilently hpq, hback.endsSilently hpq⟩
  · intro p q l p' hpq hreads
    exact hforth.reads hpq hreads
  · intro p q l q' hpq hreads
    exact hback.reads hpq hreads

theorem Bisimilar.simulatedBy (h : Bisimilar A B p q) : SimulatedBy A B p q := by
  obtain ⟨related, hrelated, hpq⟩ := h
  exact ⟨related, hrelated.isSimulation, hpq⟩

theorem Bisimilar.weaklyBisimilar (h : Bisimilar A B p q) : WeaklyBisimilar A B p q := by
  obtain ⟨related, hrelated, hpq⟩ := h
  exact ⟨related, hrelated.isWeakBisimulation, hpq⟩

end Bisimulation

section WeakBisimulation

namespace IsWeakBisimulation

/-- If related states agree on what may come after a label, they agree on it with the label in
front. -/
theorem exists_reads_iff (h : IsWeakBisimulation A B related) (hpq : related p q) {l : L}
    {after after' : Nat → Prop} (hafter : ∀ p' q', related p' q' → (after p' ↔ after' q')) :
    (∃ p', A.Reads p l p' ∧ after p') ↔ ∃ q', B.Reads q l q' ∧ after' q' := by
  constructor
  · rintro ⟨p', hreads, hp'⟩
    obtain ⟨q', hanswer, hpq'⟩ := h.forth p q l p' hpq hreads
    exact ⟨q', hanswer, (hafter p' q' hpq').mp hp'⟩
  · rintro ⟨q', hreads, hq'⟩
    obtain ⟨p', hanswer, hpq'⟩ := h.back p q l q' hpq hreads
    exact ⟨p', hanswer, (hafter p' q' hpq').mpr hq'⟩

theorem mem_readableFrom_iff (h : IsWeakBisimulation A B related) (hpq : related p q) :
    w ∈ A.readableFrom p ↔ w ∈ B.readableFrom q := by
  induction w generalizing p q with
  | nil => exact iff_of_true (A.nil_mem_readableFrom p) (B.nil_mem_readableFrom q)
  | cons l w ih =>
      rw [Automaton.cons_mem_readableFrom, Automaton.cons_mem_readableFrom]
      exact h.exists_reads_iff hpq fun _ _ hpq' => ih hpq'

theorem mem_languageFrom_iff (h : IsWeakBisimulation A B related) (hpq : related p q) :
    w ∈ A.languageFrom p ↔ w ∈ B.languageFrom q := by
  induction w generalizing p q with
  | nil =>
      rw [Automaton.nil_mem_languageFrom_iff_endsSilently,
        Automaton.nil_mem_languageFrom_iff_endsSilently]
      exact h.ends_iff p q hpq
  | cons l w ih =>
      rw [Automaton.cons_mem_languageFrom_iff_reads, Automaton.cons_mem_languageFrom_iff_reads]
      exact h.exists_reads_iff hpq fun _ _ hpq' => ih hpq'

end IsWeakBisimulation

/-- Weakly bisimilar states read the same words. -/
theorem WeaklyBisimilar.readableFrom_eq (h : WeaklyBisimilar A B p q) :
    A.readableFrom p = B.readableFrom q := by
  obtain ⟨related, hrelated, hpq⟩ := h
  ext w
  exact hrelated.mem_readableFrom_iff hpq

theorem WeaklyBisimilar.languageFrom_eq (h : WeaklyBisimilar A B p q) :
    A.languageFrom p = B.languageFrom q := by
  obtain ⟨related, hrelated, hpq⟩ := h
  ext w
  exact hrelated.mem_languageFrom_iff hpq

end WeakBisimulation

section Initials

namespace InitialsAnswered

variable {P Q : Nat → Prop}

/-- What an initial state has, an initial state of the other automaton has, if related states pass
it on. -/
theorem exists_initial (h : InitialsAnswered A B related) (hpass : ∀ p q, related p q → P p → Q q)
    (hinitial : ∃ p, A.isInitial p = true ∧ P p) : ∃ q, B.isInitial q = true ∧ Q q := by
  obtain ⟨p, hp, hP⟩ := hinitial
  obtain ⟨q, hq, hpq⟩ := h p hp
  exact ⟨q, hq, hpass p q hpq hP⟩

theorem exists_initial_iff (hforth : InitialsAnswered A B related)
    (hback : InitialsAnswered B A fun q p => related p q)
    (hagree : ∀ p q, related p q → (P p ↔ Q q)) :
    (∃ p, A.isInitial p = true ∧ P p) ↔ ∃ q, B.isInitial q = true ∧ Q q := by
  constructor
  · exact hforth.exists_initial fun p q hpq => (hagree p q hpq).mp
  · exact hback.exists_initial fun q p hpq => (hagree p q hpq).mpr

theorem readable_eq (hforth : InitialsAnswered A B related)
    (hback : InitialsAnswered B A fun q p => related p q)
    (heq : ∀ p q, related p q → A.readableFrom p = B.readableFrom q) : A.readable = B.readable := by
  ext w
  refine hforth.exists_initial_iff hback fun p q hpq => ?_
  rw [heq p q hpq]

theorem language_eq (hforth : InitialsAnswered A B related)
    (hback : InitialsAnswered B A fun q p => related p q)
    (heq : ∀ p q, related p q → A.languageFrom p = B.languageFrom q) : A.language = B.language := by
  ext w
  refine hforth.exists_initial_iff hback fun p q hpq => ?_
  rw [heq p q hpq]

end InitialsAnswered

end Initials

section Collapse

namespace Automaton.Deterministic

/-- The moves of a state that accepts no more than another one are answered, if the other automaton
is deterministic.  As something is accepted behind the move, its label can be read, and only one
state can be reached by that. -/
theorem exists_moves_of_imp (hB : B.Deterministic) (hfree : ∀ p q, ¬ A.Moves p none q)
    (hA : A.Trim) (hle : ∀ w ∈ A.languageFrom p, w ∈ B.languageFrom q) {l : Option L} {p' : Nat}
    (hmove : A.Moves p l p') :
    ∃ q', B.Moves q l q' ∧ ∀ w ∈ A.languageFrom p', w ∈ B.languageFrom q' := by
  cases l with
  | none => exact absurd hmove (hfree p p')
  | some a =>
      have hafter (w : List L) (hw : w ∈ A.languageFrom p') :
          ∃ q', B.Moves q (some a) q' ∧ w ∈ B.languageFrom q' := by
        apply (cons_mem_languageFrom hB.not_silent).mp
        exact hle _ ((cons_mem_languageFrom hfree).mpr ⟨p', hmove, hw⟩)
      obtain ⟨v, hv⟩ := hA.exists_mem_languageFrom hmove.target_lt
      obtain ⟨q', hanswer, -⟩ := hafter v hv
      refine ⟨q', hanswer, fun w hw => ?_⟩
      obtain ⟨q'', hanswer', hw'⟩ := hafter w hw
      rwa [hB.functional q (some a) q' q'' hanswer hanswer']

/-- Accepting no more than a state of a deterministic automaton is a simulation, if there are no
useless states and no silent moves. -/
theorem isSimulation_languageFrom (hB : B.Deterministic) (hfree : ∀ p q, ¬ A.Moves p none q)
    (hA : A.Trim) :
    IsSimulation A B fun p q => ∀ w ∈ A.languageFrom p, w ∈ B.languageFrom q := by
  constructor
  · intro p q hle hp
    apply (nil_mem_languageFrom hB.not_silent).mp
    exact hle _ ((nil_mem_languageFrom hfree).mpr hp)
  · intro p q l p' hle hmove
    exact hB.exists_moves_of_imp hfree hA hle hmove

/-- The moves of a state that accepts the same as another one are answered, and what is accepted
behind them is the same left quotient. -/
theorem exists_moves_of_eq (hA : A.Deterministic) (htrim : A.Trim) (hB : B.Deterministic)
    (heq : A.languageFrom p = B.languageFrom q) {l : Option L} {p' : Nat}
    (hmove : A.Moves p l p') :
    ∃ q', B.Moves q l q' ∧ A.languageFrom p' = B.languageFrom q' := by
  have hle (w : List L) (hw : w ∈ A.languageFrom p) : w ∈ B.languageFrom q := heq ▸ hw
  obtain ⟨q', hanswer, -⟩ := hB.exists_moves_of_imp hA.not_silent htrim hle hmove
  refine ⟨q', hanswer, ?_⟩
  cases l with
  | none => exact absurd hmove (hA.not_silent p p')
  | some a => rw [← hA.leftQuotient_eq hmove, heq, hB.leftQuotient_eq hanswer]

/-- In trim deterministic automata, accepting the same words is a bisimulation. -/
theorem isBisimulation_languageFrom_eq (hA : A.Deterministic) (htrim : A.Trim)
    (hB : B.Deterministic) (htrim' : B.Trim) :
    IsBisimulation A B fun p q => A.languageFrom p = B.languageFrom q := by
  constructor
  · intro p q heq
    rw [Bool.eq_iff_iff, ← nil_mem_languageFrom hA.not_silent, heq,
      nil_mem_languageFrom hB.not_silent]
  · intro p q l p' heq hmove
    exact hA.exists_moves_of_eq htrim hB heq hmove
  · intro p q l q' heq hmove
    obtain ⟨p', hanswer, heq'⟩ := hB.exists_moves_of_eq htrim' hA heq.symm hmove
    exact ⟨p', hanswer, heq'.symm⟩

/-- If a deterministic automaton accepts what a trim automaton accepts, it has an initial state as
soon as the trim one has, and that state accepts everything. -/
theorem exists_initial_of_imp (hB : B.Deterministic) (hA : A.Trim)
    (hle : ∀ w ∈ A.language, w ∈ B.language) (hp : A.isInitial p = true) :
    ∃ q, B.isInitial q = true ∧ B.language = B.languageFrom q := by
  obtain ⟨w, hw⟩ := hA.exists_mem_languageFrom (lt_size_of_isInitial hp)
  obtain ⟨q, hq, -⟩ := hle w ⟨p, hp, hw⟩
  exact ⟨q, hq, hB.language_eq hq⟩

/-- Into a deterministic automaton, simulation of the initial states is inclusion of the
languages. -/
theorem initials_simulated_iff (hB : B.Deterministic) (hfree : ∀ p q, ¬ A.Moves p none q)
    (hA : A.Trim) :
    InitialsAnswered A B (SimulatedBy A B) ↔ ∀ w ∈ A.language, w ∈ B.language := by
  constructor
  · intro h w
    exact h.exists_initial fun _ _ hpq => hpq.mem_languageFrom
  · intro hle p hp
    obtain ⟨q, hq, hall⟩ := hB.exists_initial_of_imp hA hle hp
    refine ⟨q, hq, _, hB.isSimulation_languageFrom hfree hA, ?_⟩
    intro w hw
    rw [← hall]
    exact hle w ⟨p, hp, hw⟩

/-- If trim deterministic automata accept the same words, the initial state of the one is bisimilar
to that of the other. -/
theorem initials_bisimilar_of_language_eq (hA : A.Deterministic) (htrim : A.Trim)
    (hB : B.Deterministic) (htrim' : B.Trim) (heq : A.language = B.language) :
    InitialsAnswered A B (Bisimilar A B) := by
  intro p hp
  obtain ⟨q, hq, hall⟩ := hB.exists_initial_of_imp htrim (fun w hw => heq ▸ hw) hp
  refine ⟨q, hq, _, hA.isBisimulation_languageFrom_eq htrim hB htrim', ?_⟩
  calc A.languageFrom p = A.language := (hA.language_eq hp).symm
    _ = B.language := heq
    _ = B.languageFrom q := hall

end Automaton.Deterministic

end Collapse

end FiniteState
