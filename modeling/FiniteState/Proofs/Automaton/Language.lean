import FiniteState.Automaton.Reachability
import FiniteState.Proofs.Automaton.Moves
import FiniteState.Proofs.DepthFirst
import FiniteState.Proofs.Run
import Mathlib.Computability.Language
/-!
The language of an automaton.  A word is accepted exactly if some run from an initial to a terminal
state reads it; the sets of states that are computed on the way are those that runs lead to.
-/

namespace FiniteState

universe u

variable {L : Type u} [Label L]

namespace Automaton

variable {A : Automaton L}

/-- The words that lead from `p` to a terminal state. -/
def languageFrom (A : Automaton L) (p : Nat) : Language L :=
  { w | ∃ q, Run A.Moves p w q ∧ A.isTerminal q = true }

def language (A : Automaton L) : Language L :=
  { w | ∃ p, A.isInitial p = true ∧ w ∈ A.languageFrom p }

theorem mem_language {w : List L} :
    w ∈ A.language ↔ ∃ p, A.isInitial p = true ∧ w ∈ A.languageFrom p :=
  Iff.rfl

theorem append_mem_languageFrom {p q : Nat} {v w : List L} (hrun : Run A.Moves p v q)
    (hw : w ∈ A.languageFrom q) : v ++ w ∈ A.languageFrom p := by
  obtain ⟨r, hrest, hr⟩ := hw
  exact ⟨r, hrun.append hrest, hr⟩

theorem mem_languageFrom_of_silent {p q : Nat} {w : List L} (hrun : Run A.Moves p [] q)
    (hw : w ∈ A.languageFrom q) : w ∈ A.languageFrom p :=
  append_mem_languageFrom hrun hw

theorem lt_size_of_mem_languageFrom {p : Nat} {w : List L} (hw : w ∈ A.languageFrom p) :
    p < A.size := by
  obtain ⟨t, hrun, ht⟩ := hw
  cases hrun with
  | done _ => exact lt_size_of_isTerminal ht
  | silent hmove _ => exact hmove.start_lt
  | read hmove _ => exact hmove.start_lt

theorem run_lt_size {p q : Nat} {w : List L} (hrun : Run A.Moves p w q) (hp : p < A.size) :
    q < A.size :=
  hrun.preserves (fun _ _ _ _ hmove => hmove.target_lt) hp

section Closure

/-- Silent moves stay inside of the states of the automaton, and no state has more successors than
there are states. -/
theorem mem_closure_iff_reachable {states : List Nat} {q : Nat} :
    q ∈ A.closure states ↔ Traversal.Reachable (fun p => A.successors p none)
      (states.filter fun p => decide (p < A.size)) q := by
  rw [closure, OrderedSet.mem_ofList]
  apply Traversal.mem_sweep_iff A.states A.size
  · intro p hp
    induction hp with
    | start hp => exact mem_states.mpr (of_decide_eq_true (List.mem_filter.mp hp).2)
    | step _ hq _ => exact mem_states.mpr (mem_successors.mp hq).target_lt
  · exact fun p _ => length_successors_le
  · have hstarts := List.length_filter_le (fun p => decide (p < A.size)) states
    rw [Automaton.states, List.length_range]
    omega

/-- The closure consists of the states that silent runs from the given states lead to. -/
theorem mem_closure {states : List Nat} {q : Nat} :
    q ∈ A.closure states ↔ ∃ p ∈ states, p < A.size ∧ Run A.Moves p [] q := by
  rw [mem_closure_iff_reachable]
  constructor
  · intro h
    induction h with
    | @start p hp =>
        have hp := List.mem_filter.mp hp
        exact ⟨p, hp.1, by simpa using hp.2, Run.done p⟩
    | @step q r _ hr ih =>
        obtain ⟨p, hp, hlt, hrun⟩ := ih
        exact ⟨p, hp, hlt, hrun.append (Run.single (mem_successors.mp hr))⟩
  · intro h
    rcases h with ⟨p, hp, hlt, hrun⟩
    have hstart : Traversal.Reachable (fun p => A.successors p none)
        (states.filter fun p => decide (p < A.size)) p :=
      Traversal.Reachable.start (List.mem_filter.mpr ⟨hp, by simpa using hlt⟩)
    exact hrun.preserves_silently
      (fun _ _ h hmove => Traversal.Reachable.step h (mem_successors.mpr hmove)) hstart

end Closure

theorem mem_step {states : StateSet} {l : L} {q : Nat} :
    q ∈ A.step states l ↔ ∃ p ∈ states, A.Moves p (some l) q := by
  rw [step, OrderedSet.mem_ofList, List.mem_flatMap]
  simp only [mem_successors, OrderedSet.mem_toList]

theorem mem_advance {states : StateSet} {l : L} {q : Nat} :
    q ∈ A.advance states l ↔ ∃ p ∈ states, ∃ r, A.Moves p (some l) r ∧ Run A.Moves r [] q := by
  rw [advance, mem_closure]
  constructor
  · intro h
    rcases h with ⟨r, hr, -, hrun⟩
    obtain ⟨p, hp, hmove⟩ := mem_step.mp hr
    exact ⟨p, hp, r, hmove, hrun⟩
  · intro h
    rcases h with ⟨p, hp, r, hmove, hrun⟩
    exact ⟨r, mem_step.mpr ⟨p, hp, hmove⟩, hmove.target_lt, hrun⟩

/-- No silent move leads out of the set. -/
def SilentClosed (A : Automaton L) (states : StateSet) : Prop :=
  ∀ p ∈ states, ∀ q, Run A.Moves p [] q → q ∈ states

theorem silentClosed_closure (A : Automaton L) (states : List Nat) :
    A.SilentClosed (A.closure states) := by
  intro q hq r hrun
  obtain ⟨p, hp, hlt, hpq⟩ := mem_closure.mp hq
  exact mem_closure.mpr ⟨p, hp, hlt, hpq.append hrun⟩

/-- Reading a word from a closed set leads to the states at the ends of the runs over the word. -/
theorem mem_readFrom {states : StateSet} (hclosed : A.SilentClosed states) {w : List L} {q : Nat} :
    q ∈ A.readFrom states w ↔ ∃ p ∈ states, Run A.Moves p w q := by
  induction w generalizing states with
  | nil =>
      constructor
      · exact fun hq => ⟨q, hq, Run.done q⟩
      · exact fun ⟨p, hp, hrun⟩ => hclosed p hp q hrun
  | cons l w ih =>
      have hadvance : A.SilentClosed (A.advance states l) := silentClosed_closure A _
      change q ∈ A.readFrom (A.advance states l) w ↔ _
      rw [ih hadvance]
      constructor
      · intro h
        rcases h with ⟨r, hr, hrun⟩
        obtain ⟨p, hp, r', hmove, hsilent⟩ := mem_advance.mp hr
        exact ⟨p, hp, Run.read hmove (hsilent.append hrun)⟩
      · intro h
        rcases h with ⟨p, hp, hrun⟩
        obtain ⟨p', r, hsilent, hmove, hrest⟩ := Run.cons_iff.mp hrun
        exact ⟨r, mem_advance.mpr ⟨p', hclosed p hp p' hsilent, r, hmove, Run.done r⟩, hrest⟩

theorem mem_readFrom_closure {states : List Nat} {w : List L} {q : Nat} :
    q ∈ A.readFrom (A.closure states) w ↔ ∃ p ∈ states, p < A.size ∧ Run A.Moves p w q := by
  rw [mem_readFrom (silentClosed_closure A states)]
  simp only [mem_closure]
  constructor
  · rintro ⟨r, ⟨p, hp, hlt, hsilent⟩, hrun⟩
    exact ⟨p, hp, hlt, hsilent.append hrun⟩
  · rintro ⟨p, hp, hlt, hrun⟩
    exact ⟨p, ⟨p, hp, hlt, Run.done p⟩, hrun⟩

theorem mem_readFrom_start {w : List L} {q : Nat} :
    q ∈ A.readFrom A.start w ↔ ∃ p, A.isInitial p = true ∧ Run A.Moves p w q := by
  rw [start, mem_readFrom_closure]
  constructor
  · rintro ⟨p, hp, -, hrun⟩
    exact ⟨p, mem_initials.mp hp, hrun⟩
  · rintro ⟨p, hp, hrun⟩
    exact ⟨p, mem_initials.mpr hp, lt_size_of_isInitial hp, hrun⟩

theorem meetsTerminal_iff {states : StateSet} :
    A.meetsTerminal states = true ↔ ∃ p ∈ states, A.isTerminal p = true :=
  List.any_eq_true

theorem meetsTerminal_readFrom_closure_iff {states : List Nat} {w : List L} :
    A.meetsTerminal (A.readFrom (A.closure states) w) = true ↔
      ∃ p ∈ states, w ∈ A.languageFrom p := by
  simp only [meetsTerminal_iff, mem_readFrom_closure]
  constructor
  · rintro ⟨q, ⟨p, hp, -, hrun⟩, hq⟩
    exact ⟨p, hp, q, hrun, hq⟩
  · rintro ⟨p, hp, hw⟩
    obtain ⟨q, hrun, hq⟩ := hw
    exact ⟨q, ⟨p, hp, lt_size_of_mem_languageFrom ⟨q, hrun, hq⟩, hrun⟩, hq⟩

/-- Where no states are left, reading on does not find any. -/
theorem readWhileAlive_eq_readFrom (states : StateSet) (w : List L) :
    A.readWhileAlive states w = A.readFrom states w := by
  induction w generalizing states with
  | nil => rfl
  | cons l w ih =>
      change (if states.isEmpty then states else A.readWhileAlive (A.advance states l) w) = _
      split
      · rename_i hempty
        have hnone (p : Nat) : p ∉ states := OrderedSet.isEmpty_iff.mp hempty p
        refine OrderedSet.eq_of_mem_iff fun q => ?_
        rw [mem_readFrom fun p hp => absurd hp (hnone p)]
        constructor
        · exact fun hq => absurd hq (hnone q)
        · rintro ⟨p, hp, -⟩
          exact absurd hp (hnone p)
      · exact ih (A.advance states l)

theorem accepts_eq {w : List L} : A.accepts w = A.meetsTerminal (A.readFrom A.start w) := by
  rw [accepts, readWhileAlive_eq_readFrom]

/-- Acceptance is membership in the language. -/
theorem accepts_iff_mem_language {w : List L} : A.accepts w = true ↔ w ∈ A.language := by
  rw [accepts_eq, start, meetsTerminal_readFrom_closure_iff]
  exact exists_congr fun _ => and_congr_left' mem_initials

theorem language_eq_iff {B : Automaton L} :
    A.language = B.language ↔ ∀ w, A.accepts w = B.accepts w := by
  refine Set.ext_iff.trans (forall_congr' fun w => ?_)
  rw [Bool.eq_iff_iff, accepts_iff_mem_language, accepts_iff_mem_language]
  exact Iff.rfl

section Transfer

variable {K : Automaton L}

/-- If every move and every terminal state is answered by related states, the words that lead from
one state to a terminal one also do so from a related state. -/
theorem mem_languageFrom_of_simulation (related : Nat → Nat → Prop)
    (hmoves : ∀ p p' l q, related p p' → A.Moves p l q → ∃ q', K.Moves p' l q' ∧ related q q')
    (hterminal : ∀ p p', related p p' → A.isTerminal p = true → K.isTerminal p' = true)
    {p p' : Nat} (h : related p p') {w : List L} (hw : w ∈ A.languageFrom p) :
    w ∈ K.languageFrom p' := by
  obtain ⟨q, hrun, hq⟩ := hw
  obtain ⟨q', hrun', hqq'⟩ := hrun.simulate related hmoves h
  exact ⟨q', hrun', hterminal q q' hqq' hq⟩

/-- A copy of an automaton inside of another one, which its moves do not leave, keeps the
languages of the states. -/
theorem languageFrom_embedding (f : Nat → Nat)
    (hmoves : ∀ p < A.size, ∀ l q', K.Moves (f p) l q' ↔ ∃ q, q' = f q ∧ A.Moves p l q)
    (hterminal : ∀ p < A.size, K.isTerminal (f p) = A.isTerminal p) {p : Nat} (hp : p < A.size) :
    K.languageFrom (f p) = A.languageFrom p := by
  ext w
  constructor
  · refine mem_languageFrom_of_simulation (fun p' p => p' = f p ∧ p < A.size) ?_ ?_ ⟨rfl, hp⟩
    · intro _ p l q' h hmove
      rcases h with ⟨rfl, hp⟩
      obtain ⟨q, rfl, hmove'⟩ := (hmoves p hp l q').mp hmove
      exact ⟨q, hmove', rfl, hmove'.target_lt⟩
    · intro _ p h hterm
      rcases h with ⟨rfl, hp⟩
      rwa [hterminal p hp] at hterm
  · refine mem_languageFrom_of_simulation (fun p p' => p' = f p ∧ p < A.size) ?_ ?_ ⟨rfl, hp⟩
    · intro p _ l q h hmove
      rcases h with ⟨rfl, hp⟩
      exact ⟨f q, (hmoves p hp l (f q)).mpr ⟨q, rfl, hmove⟩, rfl, hmove.target_lt⟩
    · intro p _ h hterm
      rcases h with ⟨rfl, hp⟩
      rwa [hterminal p hp]

/-- If an automaton has all moves of another one, and leads silently from the terminal states of
that one to some state, a word of that one may be followed by what this state accepts. -/
theorem append_mem_languageFrom_of_bridge {p r : Nat} {u v : List L}
    (hmoves : ∀ p l q, A.Moves p l q → K.Moves p l q)
    (hbridge : ∀ t, A.isTerminal t = true → K.Moves t none r)
    (hu : u ∈ A.languageFrom p) (hv : v ∈ K.languageFrom r) : u ++ v ∈ K.languageFrom p := by
  obtain ⟨t, hrun, ht⟩ := hu
  have hcross : v ∈ K.languageFrom t := mem_languageFrom_of_silent (Run.single (hbridge t ht)) hv
  exact append_mem_languageFrom (hrun.map id hmoves) hcross

end Transfer

end Automaton

end FiniteState
