import FiniteState.Construction.Removal
import FiniteState.Proofs.Automaton.Parts
import FiniteState.Proofs.Automaton.Useful
import FiniteState.Proofs.Numbering
import Mathlib.Data.List.NodupEquivFin
/-!
Trimming keeps the language, and leaves only useful states.  The kept states are known by their
places in the list of kept states, and a run between useful states passes useful states only.
-/

namespace FiniteState

universe u

variable {L : Type u} [Label L]

namespace Automaton

variable {A : Automaton L} {kept : StateSet} {p q x y : Nat} {l : Option L} {w : List L}

section Restrict

theorem isInitial_restrict :
    (A.restrict kept).isInitial x = true ↔
      ∃ p, kept.toList[x]? = some p ∧ A.isInitial p = true := by
  rw [restrict, isInitial_ofParts, List.getElem?_map, Option.any_map, Option.any_eq_true]

theorem isTerminal_restrict :
    (A.restrict kept).isTerminal x = true ↔
      ∃ p, kept.toList[x]? = some p ∧ A.isTerminal p = true := by
  rw [restrict, isTerminal_ofParts, List.getElem?_map, Option.any_map, Option.any_eq_true]

@[simp] theorem size_restrict : (A.restrict kept).size = kept.toList.length := by
  rw [restrict, size_ofParts, List.length_map]

theorem moves_restrict :
    (A.restrict kept).Moves x l y ↔
      ∃ p q, kept.toList[x]? = some p ∧ kept.toList[y]? = some q ∧ A.Moves p l q := by
  have hplaces := numbers_positions kept.toList_nodup
  rw [restrict, moves_ofParts, List.mem_filterMap, List.length_map]
  constructor
  · intro h
    rcases h with ⟨⟨t, ht, heq⟩, -, -⟩
    split at heq
    · rename_i x' y' hx hy
      simp only [Option.some.injEq, Transition.mk.injEq] at heq
      obtain ⟨rfl, rfl, rfl⟩ := heq
      exact ⟨t.start, t.target, (hplaces.getElem?_eq _ _).mp hx, (hplaces.getElem?_eq _ _).mp hy,
        mem_transitions.mp ht⟩
    · simp at heq
  · intro h
    rcases h with ⟨p, q, hx, hy, hmove⟩
    refine ⟨⟨⟨p, l, q⟩, mem_transitions.mpr hmove, ?_⟩, (List.getElem?_eq_some_iff.mp hx).1,
      (List.getElem?_eq_some_iff.mp hy).1⟩
    rw [(hplaces.getElem?_eq p x).mpr hx, (hplaces.getElem?_eq q y).mpr hy]

theorem isEpsilonFree_restrict (h : A.isEpsilonFree = true) :
    (A.restrict kept).isEpsilonFree = true := by
  rw [isEpsilonFree_iff] at h ⊢
  intro x y hmove
  obtain ⟨p, q, -, -, hmove⟩ := moves_restrict.mp hmove
  exact h p q hmove

theorem run_of_run_restrict (hrun : Run (A.restrict kept).Moves x w y)
    (hx : kept.toList[x]? = some p) :
    ∃ q, Run A.Moves p w q ∧ kept.toList[y]? = some q := by
  refine hrun.simulate (fun x p => kept.toList[x]? = some p) ?_ hx
  rintro x p l y hx hmove
  obtain ⟨p', q, hx', hy, hmove⟩ := moves_restrict.mp hmove
  cases hx.symm.trans hx'
  exact ⟨q, hmove, hy⟩

end Restrict

theorem exists_place (hp : p ∈ kept) : ∃ x : Nat, kept.toList[x]? = some p :=
  List.mem_iff_getElem?.mp hp

theorem run_trim (hrun : Run A.Moves p w q) (hp : p ∈ A.accessible) (hq : q ∈ A.coAccessible)
    (hx : A.useful.toList[x]? = some p) :
    ∃ y, Run A.trim.Moves x w y ∧ A.useful.toList[y]? = some q := by
  induction hrun using Run.inductionOnMoves generalizing x with
  | done p => exact ⟨x, Run.done x, hx⟩
  | step p r q l w hmove hrest ih =>
      obtain ⟨i, v, hi, hreach⟩ := mem_accessible.mp hp
      have hr : r ∈ A.accessible :=
        mem_accessible.mpr ⟨i, v ++ l.toList, hi, hreach.append (Run.single hmove)⟩
      obtain ⟨u, hu⟩ := mem_coAccessible.mp hq
      have hr' : r ∈ A.coAccessible :=
        mem_coAccessible.mpr ⟨w ++ u, append_mem_languageFrom hrest hu⟩
      obtain ⟨z, hz⟩ := exists_place (OrderedSet.mem_inter.mpr ⟨hr, hr'⟩)
      obtain ⟨y, hrun, hy⟩ := ih hr hq hz
      exact ⟨y, Run.step (moves_restrict.mpr ⟨p, r, hx, hz, hmove⟩) hrun, hy⟩

theorem languageFrom_trim (hx : A.useful.toList[x]? = some p) :
    A.trim.languageFrom x = A.languageFrom p := by
  have hp : p ∈ A.useful := List.mem_of_getElem? hx
  ext w
  constructor
  · intro h
    rcases h with ⟨y, hrun, hy⟩
    obtain ⟨q, hrun, hy'⟩ := run_of_run_restrict hrun hx
    obtain ⟨q', hq', hterm⟩ := isTerminal_restrict.mp hy
    cases hy'.symm.trans hq'
    exact ⟨q, hrun, hterm⟩
  · intro h
    rcases h with ⟨q, hrun, hterm⟩
    have hq : q ∈ A.coAccessible := mem_coAccessible.mpr ⟨[], q, Run.done q, hterm⟩
    obtain ⟨y, hrun, hy⟩ := run_trim hrun (OrderedSet.mem_inter.mp hp).1 hq hx
    exact ⟨y, hrun, isTerminal_restrict.mpr ⟨q, hy, hterm⟩⟩

theorem mem_useful_of_isInitial (hp : A.isInitial p = true) (hw : w ∈ A.languageFrom p) :
    p ∈ A.useful :=
  mem_useful.mpr ⟨⟨p, [], hp, Run.done p⟩, w, hw⟩

/-- Trimming keeps the language. -/
theorem language_trim : A.trim.language = A.language := by
  ext w
  constructor
  · intro h
    rcases h with ⟨x, hx, hw⟩
    obtain ⟨p, hxp, hp⟩ := isInitial_restrict.mp hx
    rw [languageFrom_trim hxp] at hw
    exact ⟨p, hp, hw⟩
  · intro h
    rcases h with ⟨p, hp, hw⟩
    obtain ⟨x, hx⟩ := exists_place (mem_useful_of_isInitial hp hw)
    rw [← languageFrom_trim hx] at hw
    exact ⟨x, isInitial_restrict.mpr ⟨p, hx, hp⟩, hw⟩

/-- After trimming every state is useful. -/
theorem trim_trim : A.trim.Trim := by
  intro x hx
  rw [trim, size_restrict] at hx
  have hxp : A.useful.toList[x]? = some A.useful.toList[x] := List.getElem?_eq_getElem hx
  generalize A.useful.toList[x] = p at hxp
  have hp : p ∈ A.useful := List.mem_of_getElem? hxp
  obtain ⟨⟨i, v, hi, hreach⟩, w, hw⟩ := mem_useful.mp hp
  have hv : v ++ w ∈ A.languageFrom i := append_mem_languageFrom hreach hw
  obtain ⟨z, hz⟩ := exists_place (mem_useful_of_isInitial hi hv)
  have hi' : i ∈ A.accessible := mem_accessible.mpr ⟨i, [], hi, Run.done i⟩
  obtain ⟨y, hrun, hy⟩ := run_trim hreach hi' (mem_coAccessible.mpr ⟨w, hw⟩) hz
  cases place_unique A.useful.toList_nodup hxp hy
  refine mem_useful.mpr ⟨⟨z, v, isInitial_restrict.mpr ⟨i, hz, hi⟩, hrun⟩, w, ?_⟩
  rwa [languageFrom_trim hxp]

theorem Trim.useful_eq (h : A.Trim) : A.useful = OrderedSet.range A.size := by
  refine OrderedSet.eq_of_mem_iff fun p => ?_
  rw [OrderedSet.mem_range]
  refine ⟨fun hp => ?_, h p⟩
  obtain ⟨-, w, hw⟩ := mem_useful.mp hp
  exact lt_size_of_mem_languageFrom hw

/-- An automaton without useless states is not changed, unless it has names. -/
theorem Trim.trim_eq_self (h : A.Trim) (hnames : A.names = []) : A.trim = A := by
  have hplace {x p : Nat} : A.useful.toList[x]? = some p ↔ p = x ∧ x < A.size := by
    rw [h.useful_eq, OrderedSet.range, List.getElem?_eq_some_iff]
    simp [eq_comm, and_comm]
  refine eq_of_moves_iff ?_ (fun p => ?_) (fun p => ?_) (fun p l q => ?_)
    (names_ofParts.trans hnames.symm)
  · rw [trim, size_restrict, h.useful_eq, OrderedSet.range, List.length_range]
  · rw [Bool.eq_iff_iff, trim, isInitial_restrict]
    simp only [hplace, and_assoc, exists_eq_left]
    exact and_iff_right_of_imp lt_size_of_isInitial
  · rw [Bool.eq_iff_iff, trim, isTerminal_restrict]
    simp only [hplace, and_assoc, exists_eq_left]
    exact and_iff_right_of_imp lt_size_of_isTerminal
  · rw [trim, moves_restrict]
    simp only [hplace]
    constructor
    · rintro ⟨_, _, ⟨rfl, -⟩, ⟨rfl, -⟩, hmove⟩
      exact hmove
    · exact fun hmove => ⟨p, q, ⟨rfl, hmove.start_lt⟩, ⟨rfl, hmove.target_lt⟩, hmove⟩

section Origin

/-- The members of a set of states by their places. -/
def memberAt (kept : StateSet) : Fin kept.toList.length ≃o { p // p ∈ kept } :=
  (kept.increasing.imp precedes_iff_lt.mp).sortedLT.getIso kept.toList

/-- The state that is kept as the given one.  The states that are kept are those on accepting runs,
and they keep their order. -/
def originOf (A : Automaton L) : Fin A.trim.size ≃o { p // A.OnAcceptingRun p } :=
  (Fin.castOrderIso size_restrict).trans <| (memberAt A.useful).trans
    ⟨Equiv.subtypeEquivRight fun _ => mem_useful_iff_onAcceptingRun, Iff.rfl⟩

theorem getElem?_originOf (x : Fin A.trim.size) :
    A.useful.toList[(x : Nat)]? = some (A.originOf x : Nat) :=
  List.getElem?_eq_getElem (lt_of_lt_of_eq x.2 size_restrict)

theorem isInitial_originOf (x : Fin A.trim.size) :
    A.isInitial (A.originOf x) = A.trim.isInitial x := by
  have hrestrict : A.trim.isInitial x = true ↔ _ := isInitial_restrict
  rw [Bool.eq_iff_iff, hrestrict, getElem?_originOf x]
  simp

theorem isTerminal_originOf (x : Fin A.trim.size) :
    A.isTerminal (A.originOf x) = A.trim.isTerminal x := by
  have hrestrict : A.trim.isTerminal x = true ↔ _ := isTerminal_restrict
  rw [Bool.eq_iff_iff, hrestrict, getElem?_originOf x]
  simp

theorem hasTransition_originOf (x : Fin A.trim.size) (l : Option L) (y : Fin A.trim.size) :
    A.hasTransition ⟨A.originOf x, l, A.originOf y⟩ = A.trim.hasTransition ⟨x, l, y⟩ := by
  have hrestrict : A.trim.Moves x l y ↔ _ := moves_restrict
  rw [Bool.eq_iff_iff, hasTransition_iff, hasTransition_iff, hrestrict, getElem?_originOf x,
    getElem?_originOf y]
  simp

/-- Trimming keeps the accepted words, and of the states exactly those on accepting runs, in their
order and with their flags and all transitions between them.  Every state that is left is useful
again, and every letter that is left occurs in an accepted word. -/
theorem trim_keeps_accepting_runs (A : Automaton L) :
    (∀ w, A.trim.accepts w = A.accepts w) ∧
    (∃ origin : Fin A.trim.size ≃o { p // A.OnAcceptingRun p },
      (∀ x, A.isInitial (origin x) = A.trim.isInitial x) ∧
      (∀ x, A.isTerminal (origin x) = A.trim.isTerminal x) ∧
      ∀ x l y, A.hasTransition ⟨origin x, l, origin y⟩ = A.trim.hasTransition ⟨x, l, y⟩) ∧
    (∀ x < A.trim.size, x ∈ A.trim.useful) ∧
    ∀ l ∈ A.trim.alphabet, ∃ w, A.trim.accepts w = true ∧ l ∈ w := by
  refine ⟨language_eq_iff.mp language_trim, ?_, trim_trim, fun l hl => ?_⟩
  · exact ⟨A.originOf, isInitial_originOf, isTerminal_originOf, hasTransition_originOf⟩
  · obtain ⟨w, hw, hmem⟩ := trim_trim.mem_alphabet_iff.mp hl
    exact ⟨w, accepts_iff_mem_language.mpr hw, hmem⟩

/-- A dead end and a state that cannot be reached are removed, and the letters that only they
read. -/
example :
    let detours : Automaton Char :=
      .ofParts [⟨false, false⟩, ⟨true, false⟩, ⟨false, false⟩, ⟨false, true⟩]
        [⟨1, some 'a', 3⟩, ⟨1, some 'b', 2⟩, ⟨0, some 'c', 3⟩, ⟨3, none, 1⟩]
    detours.trim.transitions = [⟨0, some 'a', 1⟩, ⟨1, none, 0⟩] ∧
      detours.trim.initials.toList = [0] ∧ detours.trim.terminals.toList = [1] := by
  decide +kernel

end Origin

end Automaton

end FiniteState
