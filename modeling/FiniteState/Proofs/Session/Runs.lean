import FiniteState.Proofs.Automaton.Path
import FiniteState.Proofs.Handle.Foreign
import FiniteState.Session.Basic
/-!
What a command does to a session.  A command that fails leaves the session as it was.  Otherwise it
draws, creates one automaton with the next tag, or puts an automaton with the same tag and at least
as many states in the place of one.  So after any commands the automata are tagged in the order of
their creation, and no automaton ever lost a state.
-/

namespace FiniteState

variable {L : Type} [Label L]

section Edits

/-- The handles that a change is given, in the order in which they are looked up. -/
def Edit.handles : Edit L → List Handle
  | .setInitial state _ => [state]
  | .setTerminal state _ => [state]
  | .addTransition start _ target => [start, target]
  | _ => []

def Outcome.handle? : Outcome → Option Handle
  | .state h => some h
  | _ => none

namespace Tagged

variable {T T' : Tagged L} {h : Handle} {edit : Edit L} {outcome : Outcome}

/-- The first one of some handles that does not belong to the automaton. -/
def foreign? (T : Tagged L) (handles : List Handle) : Option Handle :=
  handles.find? fun h => !T.contains h

/-- An automaton and the same one at a later time. -/
structure Grows (T T' : Tagged L) : Prop where
  tag_eq : T'.tag = T.tag
  size_le : T.automaton.size ≤ T'.automaton.size

/-- The automaton before and after a change that was carried out. -/
structure Edited (T T' : Tagged L) (outcome : Outcome) : Prop extends T.Grows T' where
  /-- What is told is a state of the automaton that comes out. -/
  told : ∀ h, outcome.handle? = some h → h ∈ T'.handles

theorem Grows.refl (T : Tagged L) : T.Grows T :=
  ⟨rfl, Nat.le_refl _⟩

theorem Grows.trans {T'' : Tagged L} (h : T.Grows T') (h' : T'.Grows T'') : T.Grows T'' :=
  ⟨h'.tag_eq.trans h.tag_eq, h.size_le.trans h'.size_le⟩

theorem Grows.contains (hgrows : T.Grows T') (hh : T.contains h = true) : T'.contains h = true := by
  obtain ⟨htag, hindex⟩ := contains_iff.mp hh
  exact contains_iff.mpr ⟨htag.trans hgrows.tag_eq.symm, hindex.trans_le hgrows.size_le⟩

theorem edited_of_size_eq {A : Automaton L} (hsize : A.size = T.automaton.size)
    (houtcome : outcome.handle? = none) : T.Edited ⟨T.tag, A⟩ outcome where
  tag_eq := rfl
  size_le := hsize.ge
  told h hh := by simp [houtcome] at hh

theorem edited_mark (hh : T.contains h = true) (f : Flags → Flags) :
    ∃ T', T.mark h f = (.ok (), T') ∧ T.Edited T' .nothing :=
  ⟨_, mark_of_contains hh f, edited_of_size_eq (Automaton.size_mark f) rfl⟩

theorem edited_telling {result : Nat × Automaton L} (hsize : T.automaton.size ≤ result.2.size)
    (hlt : result.1 < result.2.size) :
    ∃ outcome T', T.telling result = (.ok outcome, T') ∧ T.Edited T' outcome := by
  refine ⟨.state (T.give result.1), ⟨T.tag, result.2⟩, rfl, ⟨⟨rfl, hsize⟩, fun h hh => ?_⟩⟩
  obtain rfl := Option.some.inj hh
  exact List.mem_map.mpr ⟨result.1, Automaton.mem_states.mpr hlt, rfl⟩

/-- A change fails for the first foreign handle, and nothing is changed. -/
theorem edit_of_foreign (hforeign : T.foreign? edit.handles = some h) :
    T.edit edit = (.error ⟨h⟩, T) := by
  have hfirst := List.find?_some hforeign
  have hmem := List.mem_of_find?_eq_some hforeign
  rw [Bool.not_eq_true'] at hfirst
  have hrefuses := refuses_of_foreign hfirst
  cases edit with
  | setInitial state value =>
      obtain rfl := List.mem_singleton.mp hmem
      rw [Tagged.edit, hrefuses.setInitial]
      rfl
  | setTerminal state value =>
      obtain rfl := List.mem_singleton.mp hmem
      rw [Tagged.edit, hrefuses.setTerminal]
      rfl
  | addTransition start l target =>
      cases hstart : T.contains start with
      | false =>
          obtain rfl : start = h := by simpa [foreign?, Edit.handles, hstart] using hforeign
          rw [Tagged.edit, hrefuses.start]
          rfl
      | true =>
          obtain ⟨-, rfl⟩ : T.contains target = false ∧ target = h := by
            simpa [foreign?, Edit.handles, hstart] using hforeign
          rw [Tagged.edit, hrefuses.target start l hstart]
          rfl
  | _ => exact absurd hmem List.not_mem_nil

theorem edit_of_own (hown : T.foreign? edit.handles = none) :
    ∃ outcome T', T.edit edit = (.ok outcome, T') ∧ T.Edited T' outcome := by
  have hcontains (h : Handle) (hh : h ∈ edit.handles) : T.contains h = true := by
    simpa using List.find?_eq_none.mp hown h hh
  cases edit with
  | addState initial terminal =>
      have hlt := T.automaton.lt_size_addState initial terminal
      exact edited_telling (Nat.le_of_lt hlt) hlt
  | named name => exact edited_telling Automaton.size_le_named Automaton.named_lt
  | initialNamed name =>
      refine edited_telling ?_ ?_
      · exact Automaton.size_le_named.trans_eq (Automaton.size_mark _).symm
      · exact Automaton.named_lt.trans_eq (Automaton.size_mark _).symm
  | terminalNamed name =>
      refine edited_telling ?_ ?_
      · exact Automaton.size_le_named.trans_eq (Automaton.size_mark _).symm
      · exact Automaton.named_lt.trans_eq (Automaton.size_mark _).symm
  | setInitial state value =>
      obtain ⟨T', hmark, hedited⟩ := edited_mark (hcontains state List.mem_cons_self) _
      exact ⟨.nothing, T', by rw [Tagged.edit, setInitial, hmark]; rfl, hedited⟩
  | setTerminal state value =>
      obtain ⟨T', hmark, hedited⟩ := edited_mark (hcontains state List.mem_cons_self) _
      exact ⟨.nothing, T', by rw [Tagged.edit, setTerminal, hmark]; rfl, hedited⟩
  | addTransition start l target =>
      have hstart := hcontains start List.mem_cons_self
      have htarget := hcontains target (List.mem_cons_of_mem _ List.mem_cons_self)
      let t : Transition L := ⟨start.index, l, target.index⟩
      refine ⟨.isNew (!T.automaton.hasTransition t), ⟨T.tag, T.automaton.connect t⟩, ?_,
        edited_of_size_eq (Automaton.size_connect _ t) rfl⟩
      rw [Tagged.edit, addTransition_of_contains hstart htarget]
      rfl
  | path name steps =>
      exact edited_telling (Automaton.size_le_path steps) (Automaton.path_lt steps)

end Tagged

end Edits

namespace Session

variable {s s' s'' : Session L} {commands : List (Command L)} {i : Nat} {T : Tagged L}

/-- What a command that is carried out does to a session. -/
inductive Step (s : Session L) : Session L → Prop where
  | draw (generator : Generator) : Step s { s with generator }
  | create (generator : Generator) (register : String) (A : Automaton L) :
      Step s ({ s with generator }.issue register A)
  | change {i : Nat} {T T' : Tagged L} {outcome : Outcome} (hplace : s.automata[i]? = some T)
      (hedited : T.Edited T' outcome) : Step s { s with automata := s.automata.setIfInBounds i T' }

theorem getElem?_of_find? {register : String} (hfind : s.find? register = some (i, T)) :
    s.automata[i]? = some T := by
  simp only [find?, Option.bind_eq_bind, Option.bind_eq_some_iff] at hfind
  obtain ⟨j, -, U, hU, heq⟩ := hfind
  cases heq
  exact hU

theorem replace_self (hplace : s.automata[i]? = some T) :
    { s with automata := s.automata.setIfInBounds i T } = s := by
  have hsame : s.automata.setIfInBounds i T = s.automata := by
    refine Array.ext_getElem? fun j => ?_
    rw [Array.getElem?_setIfInBounds]
    split
    · rename_i hij
      obtain ⟨hi, -⟩ := Array.getElem?_eq_some_iff.mp hplace
      rw [if_pos hi, ← hij, hplace]
    · rfl
  rw [hsame]

/-- A change with a foreign handle reports the first one, and the session stays as it was. -/
theorem change_of_foreign {register : String} {edit : Edit L} {h : Handle}
    (hfind : s.find? register = some (i, T)) (hforeign : T.foreign? edit.handles = some h) :
    s.change register edit = (.error (.state ⟨h⟩), s) := by
  rw [change, hfind]
  dsimp only
  rw [T.edit_of_foreign hforeign]
  exact congrArg _ (replace_self (getElem?_of_find? hfind))

theorem change_of_own {register : String} {edit : Edit L}
    (hfind : s.find? register = some (i, T)) (hown : T.foreign? edit.handles = none) :
    ∃ outcome T', T.Edited T' outcome ∧ s.change register edit =
      (.ok (.changed outcome T'.automaton),
        { s with automata := s.automata.setIfInBounds i T' }) := by
  obtain ⟨outcome, T', hedit, hedited⟩ := T.edit_of_own hown
  refine ⟨outcome, T', hedited, ?_⟩
  rw [change, hfind]
  dsimp only
  rw [hedit]

/-- A command fails and leaves the session as it was, or it is carried out. -/
theorem perform_cases (s : Session L) (command : Command L) :
    (∃ failure, s.perform command = (.error failure, s)) ∨
      ∃ answer s', s.perform command = (.ok answer, s') ∧ s.Step s' := by
  cases command with
  | create register recipe =>
      rw [perform, create]
      cases s.prepare recipe with
      | error e => exact Or.inl ⟨e, rfl⟩
      | ok prepared => exact Or.inr ⟨_, _, rfl, .create prepared.2 register prepared.1⟩
  | change register edit =>
      rw [perform]
      cases hfind : s.find? register with
      | none => exact Or.inl ⟨.register register, by rw [change, hfind]⟩
      | some found =>
          obtain ⟨i, T⟩ := found
          cases hforeign : T.foreign? edit.handles with
          | some h => exact Or.inl ⟨_, change_of_foreign hfind hforeign⟩
          | none =>
              obtain ⟨outcome, T', hedited, hchange⟩ := change_of_own hfind hforeign
              exact Or.inr ⟨_, _, hchange, .change (getElem?_of_find? hfind) hedited⟩
  | reseed seed => exact Or.inr ⟨_, _, rfl, .draw _⟩
  | drawWords alphabet least greatest count =>
      rw [perform, drawWords]
      split
      · exact Or.inl ⟨_, rfl⟩
      · exact Or.inr ⟨_, _, rfl, .draw _⟩

section Tags

/-- The automata are tagged in the order of their creation. -/
structure Numbered (s : Session L) : Prop where
  nextTag_eq : s.nextTag = UInt64.ofNat s.automata.size
  tag_eq : ∀ (i : Nat) (T : Tagged L), s.automata[i]? = some T → T.tag = i % 2 ^ 64

theorem numbered_begin : (begin : Session L).Numbered where
  nextTag_eq := rfl
  tag_eq _ _ hplace := absurd hplace (by simp [begin])

theorem Step.numbered (hstep : s.Step s') (h : s.Numbered) : s'.Numbered := by
  cases hstep with
  | draw generator => exact ⟨h.nextTag_eq, h.tag_eq⟩
  | create generator register A =>
      refine ⟨?_, fun i T hplace => ?_⟩
      · simp only [issue, Array.size_push, h.nextTag_eq]
        exact (UInt64.ofNat_add _ 1).symm
      · simp only [issue, Array.getElem?_push] at hplace
        split at hplace
        · rename_i hi
          cases hplace
          rw [h.nextTag_eq, UInt64.toNat_ofNat', hi]
        · exact h.tag_eq i T hplace
  | change hplace hedited =>
      rename_i j U U' outcome
      refine ⟨by simpa using h.nextTag_eq, fun i T hi => ?_⟩
      simp only [Array.getElem?_setIfInBounds] at hi
      split at hi
      · rename_i hij
        subst hij
        split at hi
        · cases hi
          exact hedited.tag_eq.trans (h.tag_eq _ _ hplace)
        · exact absurd hi (by simp)
      · exact h.tag_eq i T hi

theorem Numbered.perform (h : s.Numbered) (command : Command L) :
    (s.perform command).2.Numbered := by
  rcases s.perform_cases command with ⟨failure, heq⟩ | ⟨answer, s', heq, hstep⟩
  · rw [heq]
    exact h
  · rw [heq]
    exact hstep.numbered h

theorem Numbered.run (h : s.Numbered) (commands : List (Command L)) :
    (s.run commands).Numbered := by
  induction commands generalizing s with
  | nil => exact h
  | cons command rest ih => exact ih (h.perform command)

end Tags

section Growth

/-- Every automaton is still there, and has kept its states. -/
def Grows (s s' : Session L) : Prop :=
  ∀ (i : Nat) (T : Tagged L), s.automata[i]? = some T →
    ∃ T', s'.automata[i]? = some T' ∧ T.Grows T'

theorem Grows.refl (s : Session L) : s.Grows s :=
  fun _ T hplace => ⟨T, hplace, .refl T⟩

theorem Grows.trans (h : s.Grows s') (h' : s'.Grows s'') : s.Grows s'' := by
  intro i T hplace
  obtain ⟨T', hplace', hgrows⟩ := h i T hplace
  obtain ⟨T'', hplace'', hgrows'⟩ := h' i T' hplace'
  exact ⟨T'', hplace'', hgrows.trans hgrows'⟩

theorem Step.grows (hstep : s.Step s') : s.Grows s' := by
  intro i T hplace
  obtain ⟨hi, -⟩ := Array.getElem?_eq_some_iff.mp hplace
  cases hstep with
  | draw generator => exact ⟨T, hplace, .refl T⟩
  | create generator register A =>
      refine ⟨T, ?_, .refl T⟩
      simp only [issue, Array.getElem?_push]
      rw [if_neg hi.ne, hplace]
  | change hchanged hedited =>
      rename_i j U U' outcome
      by_cases hij : j = i
      · subst hij
        obtain rfl : U = T := Option.some.inj (hchanged.symm.trans hplace)
        exact ⟨U', by simp [hi], hedited.toGrows⟩
      · refine ⟨T, ?_, .refl T⟩
        simp only [Array.getElem?_setIfInBounds]
        rw [if_neg hij, hplace]

theorem grows_perform (s : Session L) (command : Command L) :
    s.Grows (s.perform command).2 := by
  rcases s.perform_cases command with ⟨failure, heq⟩ | ⟨answer, s', heq, hstep⟩
  · rw [heq]
    exact .refl s
  · rw [heq]
    exact hstep.grows

theorem grows_run (s : Session L) (commands : List (Command L)) : s.Grows (s.run commands) := by
  induction commands generalizing s with
  | nil => exact .refl s
  | cons command rest ih => exact (s.grows_perform command).trans (ih (s.perform command).2)

end Growth

section After

def after (commands : List (Command L)) : Session L :=
  begin.run commands

theorem after_concat (commands : List (Command L)) (command : Command L) :
    after (commands ++ [command]) = ((after commands).perform command).2 := by
  rw [after, run, List.foldl_concat]
  rfl

theorem numbered_after (commands : List (Command L)) : (after commands).Numbered :=
  numbered_begin.run commands

/-- Whatever was there after the first commands is still there after the others. -/
theorem grows_after {earlier : List (Command L)} (hearlier : earlier <+: commands) :
    (after earlier).Grows (after commands) := by
  obtain ⟨later, rfl⟩ := hearlier
  rw [after, after, run, run, List.foldl_append]
  exact grows_run _ later

/-- Whatever was done before, failing commands included, the records of all automata are in step.
No induction over the commands is left to do, as every operation on the records keeps the invariant
that automata come with. -/
theorem automata_are_intact (commands : List (Command L)) :
    ∀ T ∈ (after commands).automata.toList, T.automaton.Intact :=
  fun T _ => T.automaton.intact

/-- A letter and a copy of it that is changed afterwards.  The first new transition fails, as one of
its ends is a state of the original. -/
def copySample : List (Command Char) :=
  [.create "letter" (.given (.letter 'a')),
    .create "copy" (.unary "letter" id),
    .change "copy" (.named "end"),
    .change "copy" (.addTransition ⟨1, 1⟩ none ⟨0, 1⟩),
    .change "copy" (.addTransition ⟨1, 1⟩ none ⟨1, 2⟩)]

theorem copySample_is_intact : ∃ T ∈ (after copySample).automata.toList,
    T.automaton.transitionCount = 2 ∧ T.automaton.Intact := by
  have hcount : ∃ T ∈ (after copySample).automata.toList, T.automaton.transitionCount = 2 := by
    decide +kernel
  obtain ⟨T, hT, hcount⟩ := hcount
  exact ⟨T, hT, hcount, automata_are_intact copySample T hT⟩

end After

end Session

end FiniteState
