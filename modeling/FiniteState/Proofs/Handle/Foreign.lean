import FiniteState.Proofs.Automaton.Intact
import FiniteState.Proofs.Handle.Basic
/-!
Foreign handles.  Handles are looked up before they are used for anything, so a foreign one is as
good as none where something is looked at, and reported where something is to be changed.
-/

namespace FiniteState

universe u v

variable {L : Type u} [Label L]

namespace Tagged

variable {T : Tagged L} {h start target : Handle} {l : Option L} {p : Nat}

theorem locate_of_contains (hh : T.contains h = true) : T.locate h = .ok h.index := by
  rw [locate, if_pos hh]

theorem locate_of_foreign (hh : T.contains h = false) : T.locate h = .error ⟨h⟩ := by
  rw [locate, hh, if_neg Bool.false_ne_true]

section Inspection

theorem inspect_of_foreign {α : Type v} (hh : T.contains h = false) (tell : Nat → α) (default : α) :
    T.inspect h tell default = default := by
  rw [inspect, locate_of_foreign hh]

/-- A handle that is given out is never foreign, even if the number of its state was cut off. -/
theorem contains_give (hp : p < T.automaton.size) : T.contains (T.give p) = true := by
  refine contains_handle.mpr (Nat.lt_of_le_of_lt ?_ hp)
  rw [UInt32.toNat_ofNat']
  exact Nat.mod_le p _

theorem contains_of_mem_handles (hh : h ∈ T.handles) : T.contains h = true := by
  obtain ⟨p, hp, rfl⟩ := List.mem_map.mp hh
  exact contains_give (Automaton.mem_states.mp hp)

/-- The handles of an automaton are those it gave out, if all of its states can be told apart. -/
theorem contains_iff_mem_handles (hsize : T.automaton.size ≤ 2 ^ 32) :
    T.contains h = true ↔ h ∈ T.handles := by
  refine ⟨fun hh => ?_, contains_of_mem_handles⟩
  obtain ⟨htag, hindex⟩ := contains_iff.mp hh
  refine List.mem_map.mpr ⟨h.index, Automaton.mem_states.mpr hindex, ?_⟩
  rw [give, UInt32.toNat_ofNat', Nat.mod_eq_of_lt (Nat.lt_of_lt_of_le hindex hsize), handle, ← htag]

theorem contains_of_mem_successors {h' : Handle} (hh : h' ∈ T.successors h l) :
    T.contains h' = true := by
  rw [successors, inspect] at hh
  obtain ⟨q, hq, rfl⟩ := List.mem_map.mp hh
  split at hq
  · exact contains_give (Automaton.mem_successors.mp hq).target_lt
  · exact absurd hq List.not_mem_nil

theorem contains_of_stateNamed? {name : String} (hname : T.stateNamed? name = some h) :
    T.contains h = true := by
  obtain ⟨p, hp, rfl⟩ := Option.map_eq_some_iff.mp hname
  exact contains_give (Automaton.lt_size_of_stateNamed? hp)

/-- All questions about the handle are answered as if there were no such state. -/
structure TellsNothing (T : Tagged L) (h : Handle) : Prop where
  isInitial : T.isInitial h = false
  isTerminal : T.isTerminal h = false
  nameOf? : T.nameOf? h = none
  outgoing : T.outgoing h = ∅
  incoming : T.incoming h = ∅
  labelsFrom : T.labelsFrom h = ∅
  successors : ∀ l, T.successors h l = []
  predecessors : ∀ l, T.predecessors h l = []
  not_start : ∀ l target, T.hasTransition h l target = false
  not_target : ∀ start l, T.hasTransition start l h = false
  not_named : ∀ name, T.stateNamed? name ≠ some h
  /-- Among other handles it is passed over. -/
  closure : ∀ front back, T.closure (front ++ h :: back) = T.closure (front ++ back)
  step : ∀ front back a, T.step (front ++ h :: back) a = T.step (front ++ back) a

theorem tellsNothing_of_foreign (hh : T.contains h = false) : T.TellsNothing h := by
  have hsuccessors (l : Option L) : T.successors h l = [] := by
    rw [successors, inspect_of_foreign hh, List.map_nil]
  have hother {h' : Handle} (hh' : T.contains h' = true) : h' ≠ h := by
    rintro rfl
    exact Bool.noConfusion (hh'.symm.trans hh)
  exact {
    isInitial := inspect_of_foreign hh _ _
    isTerminal := inspect_of_foreign hh _ _
    nameOf? := inspect_of_foreign hh _ _
    outgoing := inspect_of_foreign hh _ _
    incoming := inspect_of_foreign hh _ _
    labelsFrom := inspect_of_foreign hh _ _
    successors := hsuccessors
    predecessors := fun l => by rw [predecessors, inspect_of_foreign hh, List.map_nil]
    not_start := fun l target => by rw [hasTransition, hsuccessors, List.contains_nil]
    not_target := fun start l => by
      rw [hasTransition, Bool.eq_false_iff, ne_eq, List.contains_iff_mem]
      exact fun hmem => hother (contains_of_mem_successors hmem) rfl
    not_named := fun name hname => hother (contains_of_stateNamed? hname) rfl
    closure := fun front back => by
      rw [closure, closure, own, own, List.filter_append, List.filter_append,
        List.filter_cons_of_neg (by simp [hh])]
    step := fun front back a => by
      rw [step, step, List.flatMap_append, List.flatMap_append, List.flatMap_cons, hsuccessors,
        List.nil_append] }

end Inspection

section Changes

/-- No change through the handle is carried out, and the first foreign handle is reported. -/
structure Refuses (T : Tagged L) (h : Handle) : Prop where
  setInitial : ∀ value, T.setInitial h value = (.error ⟨h⟩, T)
  setTerminal : ∀ value, T.setTerminal h value = (.error ⟨h⟩, T)
  start : ∀ l target, T.addTransition h l target = (.error ⟨h⟩, T)
  target : ∀ start l, T.contains start = true → T.addTransition start l h = (.error ⟨h⟩, T)

theorem mark_of_contains (hh : T.contains h = true) (f : Flags → Flags) :
    T.mark h f = (.ok (), { T with automaton := T.automaton.mark h.index f }) := by
  rw [mark, locate_of_contains hh]

theorem addTransition_of_contains (hstart : T.contains start = true)
    (htarget : T.contains target = true) :
    T.addTransition start l target =
      (.ok (!T.automaton.hasTransition ⟨start.index, l, target.index⟩),
        { T with automaton := T.automaton.connect ⟨start.index, l, target.index⟩ }) := by
  rw [addTransition, locate_of_contains hstart, locate_of_contains htarget]

theorem mark_of_foreign (hh : T.contains h = false) (f : Flags → Flags) :
    T.mark h f = (.error ⟨h⟩, T) := by
  rw [mark, locate_of_foreign hh]

theorem refuses_of_foreign (hh : T.contains h = false) : T.Refuses h where
  setInitial _ := mark_of_foreign hh _
  setTerminal _ := mark_of_foreign hh _
  start l target := by rw [addTransition, locate_of_foreign hh]
  target start l hstart := by rw [addTransition, locate_of_contains hstart, locate_of_foreign hh]

end Changes

end Tagged

end FiniteState
