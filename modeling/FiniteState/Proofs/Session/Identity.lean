import FiniteState.Proofs.Session.Runs
/-!
Identities over whole sessions.  A handle is given out by an automaton if at some time it was the
handle of one of its states.  As tags are never used twice, an automaton accepts exactly the handles
that it gave out itself, also those of long ago, and those of all other automata are foreign to it:
of what it was made from, of copies, and of automata that are in no register any more.
-/

namespace FiniteState

variable {L : Type} [Label L]

namespace Session

/-- After some of the commands, the handle was that of a state of the automaton with the given
number in the order of creation. -/
def GivenOut (commands : List (Command L)) (i : Nat) (h : Handle) : Prop :=
  ∃ earlier, earlier <+: commands ∧ ∃ T, (after earlier).automata[i]? = some T ∧ h ∈ T.handles

variable {commands : List (Command L)} {s : Session L} {i j : Nat} {T U : Tagged L} {h : Handle}

section Tags

theorem Numbered.tag_eq_place (hs : s.Numbered) (hsize : s.automata.size < 2 ^ 64)
    (hplace : s.automata[i]? = some T) : T.tag = i := by
  obtain ⟨hi, -⟩ := Array.getElem?_eq_some_iff.mp hplace
  rw [hs.tag_eq i T hplace, Nat.mod_eq_of_lt (hi.trans hsize)]

/-- As long as the counter has not run over, no tag is used twice. -/
theorem Numbered.tags_nodup (hs : s.Numbered) (hsize : s.automata.size < 2 ^ 64) :
    (s.automata.toList.map Tagged.tag).Nodup := by
  have htags : s.automata.toList.map Tagged.tag = List.range s.automata.size := by
    refine List.ext_getElem (by simp) fun i hi _ => ?_
    rw [List.length_map, Array.length_toList] at hi
    rw [List.getElem_map, List.getElem_range, Array.getElem_toList]
    exact hs.tag_eq_place hsize (Array.getElem?_eq_getElem hi)
  rw [htags]
  exact List.nodup_range

end Tags

section Handles

/-- An automaton goes on to accept what it gave out. -/
theorem GivenOut.exists_automaton (hgiven : GivenOut commands i h) :
    ∃ T, (after commands).automata[i]? = some T ∧ T.contains h = true := by
  obtain ⟨earlier, hearlier, T₀, hplace₀, hmem⟩ := hgiven
  obtain ⟨T, hplace, hgrows⟩ := grows_after hearlier i T₀ hplace₀
  exact ⟨T, hplace, hgrows.contains (Tagged.contains_of_mem_handles hmem)⟩

theorem contains_iff_givenOut (hplace : (after commands).automata[i]? = some T)
    (hstates : T.automaton.size < 2 ^ 32) : T.contains h = true ↔ GivenOut commands i h := by
  constructor
  · intro hh
    exact ⟨commands, List.prefix_rfl, T, hplace,
      (Tagged.contains_iff_mem_handles (Nat.le_of_lt hstates)).mp hh⟩
  · intro hgiven
    obtain ⟨T', hplace', hcontains⟩ := hgiven.exists_automaton
    obtain rfl : T' = T := Option.some.inj (hplace'.symm.trans hplace)
    exact hcontains

/-- What one automaton gave out is foreign to all others. -/
theorem GivenOut.foreign (hgiven : GivenOut commands j h)
    (hautomata : (after commands).automata.size < 2 ^ 64) (hij : j ≠ i)
    (hplace : (after commands).automata[i]? = some T) : T.contains h = false := by
  have hnumbered := numbered_after commands
  obtain ⟨U, hplaceU, hcontains⟩ := hgiven.exists_automaton
  rw [Bool.eq_false_iff]
  intro hh
  have htag : U.tag = T.tag :=
    (Tagged.contains_iff.mp hcontains).1.symm.trans (Tagged.contains_iff.mp hh).1
  rw [hnumbered.tag_eq_place hautomata hplaceU, hnumbered.tag_eq_place hautomata hplace] at htag
  exact hij htag

end Handles

section Changes

/-- What a creation puts into a register is not one of the automata that were there before. -/
theorem find?_of_create {register : String} {recipe : Recipe L} {answer : Answer L}
    (hcreate : (s.perform (.create register recipe)).1 = .ok answer) :
    ∃ T, (s.perform (.create register recipe)).2.find? register = some (s.automata.size, T) ∧
      answer = .created T.automaton := by
  simp only [perform, create] at hcreate ⊢
  cases hprepare : s.prepare recipe with
  | error e =>
      rw [hprepare] at hcreate
      exact absurd hcreate (by simp)
  | ok prepared =>
      rw [hprepare] at hcreate
      obtain rfl : .created prepared.1 = answer := Except.ok.inj hcreate
      exact ⟨⟨s.nextTag.toNat, prepared.1⟩, by simp [find?, issue], rfl⟩

/-- The handle that a change tells is given out by the automaton that was changed. -/
theorem givenOut_of_told {register : String} {edit : Edit L} {outcome : Outcome} {A : Automaton L}
    (hfind : (after commands).find? register = some (i, T))
    (hchange : ((after commands).perform (.change register edit)).1 = .ok (.changed outcome A))
    (htold : outcome.handle? = some h) : GivenOut (commands ++ [.change register edit]) i h := by
  have hplace := getElem?_of_find? hfind
  obtain ⟨hi, -⟩ := Array.getElem?_eq_some_iff.mp hplace
  cases hforeign : T.foreign? edit.handles with
  | some h' =>
      rw [perform, change_of_foreign hfind hforeign] at hchange
      exact absurd hchange (by simp)
  | none =>
      obtain ⟨outcome', T', hedited, heq⟩ := change_of_own hfind hforeign
      rw [perform, heq] at hchange
      obtain ⟨rfl, -⟩ : outcome' = outcome ∧ T'.automaton = A := by simpa using hchange
      refine ⟨_, List.prefix_rfl, T', ?_, hedited.told h htold⟩
      rw [after_concat, perform, heq]
      simp [hi]

theorem perform_eq_of_error {command : Command L} {failure : Failure}
    (hfails : (s.perform command).1 = .error failure) : (s.perform command).2 = s := by
  rcases s.perform_cases command with ⟨failure', heq⟩ | ⟨answer, s', heq, -⟩
  · rw [heq]
  · rw [heq] at hfails
    exact absurd hfails (by simp)

end Changes

/-- After some commands, the handles of different automata are kept apart. -/
structure KeepsApart (commands : List (Command L)) : Prop where
  tags_nodup : ((after commands).automata.toList.map Tagged.tag).Nodup
  /-- An automaton accepts what it gave out, and nothing else. -/
  contains_iff : ∀ i T, (after commands).automata[i]? = some T →
    ∀ h, T.contains h = true ↔ GivenOut commands i h
  /-- Through what another automaton gave out nothing is changed, and nothing is seen. -/
  refuses : ∀ i T, (after commands).automata[i]? = some T →
    ∀ j h, GivenOut commands j h → j ≠ i → T.Refuses h ∧ T.TellsNothing h
  /-- What is created is a new automaton, also if it is a copy of another one. -/
  create_is_new : ∀ register recipe answer,
    ((after commands).perform (.create register recipe)).1 = .ok answer →
      ∃ T, (after (commands ++ [.create register recipe])).find? register =
        some ((after commands).automata.size, T) ∧ answer = .created T.automaton
  /-- Of the handles that a change is given the first foreign one is reported, and all automata stay
  as they were. -/
  change_of_foreign : ∀ register i T, (after commands).find? register = some (i, T) →
    ∀ edit h, T.foreign? edit.handles = some h →
      (after commands).perform (.change register edit) = (.error (.state ⟨h⟩), after commands)
  /-- A change without foreign handles is carried out. -/
  change_of_own : ∀ register i T, (after commands).find? register = some (i, T) →
    ∀ edit, T.foreign? edit.handles = none →
      ∃ outcome A, ((after commands).perform (.change register edit)).1 =
        .ok (.changed outcome A) ∧
      ∀ h, outcome.handle? = some h → GivenOut (commands ++ [.change register edit]) i h
  /-- Whatever fails, fails without a trace. -/
  perform_of_error : ∀ command failure, ((after commands).perform command).1 = .error failure →
    ((after commands).perform command).2 = after commands

/-- Whatever was done before, automata are told apart by their tags, and a handle is good for the
automaton that gave it out and foreign to all others. -/
theorem foreign_handles_are_detected (commands : List (Command L))
    (hautomata : (after commands).automata.size < 2 ^ 64)
    (hstates : ∀ T ∈ (after commands).automata.toList, T.automaton.size < 2 ^ 32) :
    KeepsApart commands where
  tags_nodup := (numbered_after commands).tags_nodup hautomata
  contains_iff i T hplace h := by
    rw [← Array.getElem?_toList] at hplace
    have hsize := hstates T (List.mem_of_getElem? hplace)
    rw [Array.getElem?_toList] at hplace
    exact contains_iff_givenOut hplace hsize
  refuses i T hplace j h hgiven hij := by
    have hforeign := hgiven.foreign hautomata hij hplace
    exact ⟨Tagged.refuses_of_foreign hforeign, Tagged.tellsNothing_of_foreign hforeign⟩
  create_is_new register recipe answer hcreate := by
    rw [after_concat]
    exact find?_of_create hcreate
  change_of_foreign _ _ _ hfind _ _ hforeign := Session.change_of_foreign hfind hforeign
  change_of_own register i T hfind edit hown := by
    obtain ⟨outcome, T', -, heq⟩ := Session.change_of_own hfind hown
    have hanswer : ((after commands).perform (.change register edit)).1 =
        .ok (.changed outcome T'.automaton) := by rw [perform, heq]
    exact ⟨outcome, T'.automaton, hanswer, fun h => givenOut_of_told hfind hanswer⟩
  perform_of_error _ _ := perform_eq_of_error

theorem copySample_keeps_apart : KeepsApart copySample ∧
    (after copySample).perform (.change "copy" (.addTransition ⟨1, 1⟩ none ⟨0, 1⟩)) =
      (.error (.state ⟨⟨0, 1⟩⟩), after copySample) := by
  have hkeeps : KeepsApart copySample :=
    foreign_handles_are_detected copySample (by decide +kernel) (by decide +kernel)
  have hcopy : ((after copySample).find? "copy").map
      (fun found => (found.1, found.2.foreign? [⟨1, 1⟩, ⟨0, 1⟩])) = some (1, some ⟨0, 1⟩) := by
    decide +kernel
  obtain ⟨⟨i, T⟩, hfind, heq⟩ := Option.map_eq_some_iff.mp hcopy
  obtain ⟨rfl, hforeign⟩ := Prod.mk.inj heq
  exact ⟨hkeeps, hkeeps.change_of_foreign "copy" 1 T hfind _ _ hforeign⟩

end Session

end FiniteState
