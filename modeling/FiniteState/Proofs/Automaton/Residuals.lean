import FiniteState.Proofs.Automaton.Deterministic
import Mathlib.Data.List.Perm.Subperm
/-!
Minimal automata.  In a trim deterministic automaton whose states accept different languages, the
states are the left quotients of the language that are not empty.  So no deterministic automaton
for the language is smaller, and the order of the left quotients determines the automaton.
-/

namespace FiniteState

universe u v

variable {L : Type u} [Label L]

namespace Automaton

variable {A B E : Automaton L} {p q : Nat} {l : Option L}

/-- The automata agree at every index: they have the same states, flags and transitions. -/
structure SameIndices (A B : Automaton L) : Prop where
  size_eq : A.size = B.size
  initials_eq : A.initials = B.initials
  terminals_eq : A.terminals = B.terminals
  transitions_eq : A.transitions = B.transitions

/-- Automata that agree at every index differ in the names of their states at most. -/
theorem SameIndices.eq (h : A.SameIndices B) (hnames : A.names = B.names) : A = B := by
  refine eq_of_moves_iff h.size_eq (fun p => ?_) (fun p => ?_) (fun p l q => ?_) hnames
  · rw [Bool.eq_iff_iff, ← mem_initials, ← mem_initials, h.initials_eq]
  · rw [Bool.eq_iff_iff, ← mem_terminals, ← mem_terminals, h.terminals_eq]
  · exact (mem_transitions (t := ⟨p, l, q⟩)).symm.trans
      (by rw [h.transitions_eq]; exact mem_transitions)

/-- What the states accept, in their order. -/
def residuals (A : Automaton L) : List (Language L) :=
  A.states.map A.languageFrom

@[simp] theorem length_residuals : A.residuals.length = A.size := by
  rw [residuals, List.length_map, states, List.length_range]

theorem getElem?_residuals (hp : p < A.size) : A.residuals[p]? = some (A.languageFrom p) := by
  rw [residuals, List.getElem?_map, states, List.getElem?_range hp, Option.map_some]

theorem mem_residuals {R : Language L} : R ∈ A.residuals ↔ ∃ p < A.size, A.languageFrom p = R := by
  simp only [residuals, List.mem_map, mem_states]

/-- If the states stand for the members of a list, so does what they accept. -/
theorem residuals_eq_map {α : Type v} {nodes : List α} {f : α → Language L}
    (hsize : A.size = nodes.length) (h : ∀ x a, nodes[x]? = some a → A.languageFrom x = f a) :
    A.residuals = nodes.map f := by
  apply List.ext_getElem (by rw [length_residuals, List.length_map, hsize])
  intro x hx hx'
  rw [List.length_map] at hx'
  have hget := getElem?_residuals (hsize ▸ hx')
  rw [List.getElem?_eq_getElem hx, Option.some.injEq] at hget
  rw [hget, List.getElem_map]
  exact h x _ (List.getElem?_eq_getElem hx')

/-- All states are useful, and no two of them accept the same words. -/
structure Minimal (A : Automaton L) : Prop where
  deterministic : A.Deterministic
  trim : A.Trim
  nodup_residuals : A.residuals.Nodup

theorem Trim.exists_mem_languageFrom (h : A.Trim) (hp : p < A.size) : ∃ w, w ∈ A.languageFrom p :=
  (mem_useful.mp (h p hp)).2

namespace Minimal

theorem eq_of_languageFrom_eq (h : A.Minimal) (hp : p < A.size) (hq : q < A.size)
    (heq : A.languageFrom p = A.languageFrom q) : p = q :=
  List.inj_on_of_nodup_map h.nodup_residuals (mem_states.mpr hp) (mem_states.mpr hq) heq

theorem isInitial_iff (h : A.Minimal) (hp : p < A.size) :
    A.isInitial p = true ↔ A.languageFrom p = A.language := by
  constructor
  · exact fun hi => (h.deterministic.language_eq hi).symm
  · intro heq
    obtain ⟨w, hw⟩ := h.trim.exists_mem_languageFrom hp
    rw [heq] at hw
    obtain ⟨i, hi, -⟩ := hw
    rw [h.deterministic.language_eq hi] at heq
    rwa [h.eq_of_languageFrom_eq hp (lt_size_of_isInitial hi) heq]

theorem isTerminal_iff (h : A.Minimal) : A.isTerminal p = true ↔ [] ∈ A.languageFrom p :=
  (nil_mem_languageFrom h.deterministic.not_silent).symm

theorem moves_iff (h : A.Minimal) (hq : q < A.size) :
    A.Moves p l q ↔ ∃ a, l = some a ∧ (A.languageFrom p).leftQuotient [a] = A.languageFrom q := by
  constructor
  · intro hmove
    cases l with
    | none => exact absurd hmove (h.deterministic.not_silent p q)
    | some a => exact ⟨a, rfl, h.deterministic.leftQuotient_eq hmove⟩
  · intro h
    rcases h with ⟨a, rfl, heq⟩
    obtain ⟨w, hw⟩ := h.trim.exists_mem_languageFrom hq
    rw [← heq] at hw
    obtain ⟨r, hmove, -⟩ := (cons_mem_languageFrom h.deterministic.not_silent).mp hw
    rw [h.deterministic.leftQuotient_eq hmove] at heq
    rwa [← h.eq_of_languageFrom_eq hmove.target_lt hq heq]

/-- What the states accept, and in which order, determines a minimal automaton. -/
theorem eq_of_residuals_eq (hA : A.Minimal) (hB : B.Minimal) (hlanguage : A.language = B.language)
    (hresiduals : A.residuals = B.residuals) (hnames : A.names = B.names) : A = B := by
  have hsize : A.size = B.size := by
    rw [← length_residuals, hresiduals, length_residuals]
  have hfrom {p : Nat} (hp : p < A.size) : A.languageFrom p = B.languageFrom p := by
    have hget := getElem?_residuals hp
    rw [hresiduals, getElem?_residuals (hsize ▸ hp)] at hget
    exact (Option.some.inj hget).symm
  refine eq_of_moves_iff hsize (fun p => ?_) (fun p => ?_) (fun p l q => ?_) hnames
  · rw [Bool.eq_iff_iff]
    by_cases hp : p < A.size
    · rw [hA.isInitial_iff hp, hB.isInitial_iff (hsize ▸ hp), hfrom hp, hlanguage]
    · exact iff_of_false (fun hi => hp (lt_size_of_isInitial hi))
        fun hi => hp (hsize ▸ lt_size_of_isInitial hi)
  · rw [Bool.eq_iff_iff]
    by_cases hp : p < A.size
    · rw [hA.isTerminal_iff, hB.isTerminal_iff, hfrom hp]
    · exact iff_of_false (fun ht => hp (lt_size_of_isTerminal ht))
        fun ht => hp (hsize ▸ lt_size_of_isTerminal ht)
  · by_cases hpq : p < A.size ∧ q < A.size
    · obtain ⟨hp, hq⟩ := hpq
      rw [hA.moves_iff hq, hB.moves_iff (hsize ▸ hq), hfrom hp, hfrom hq]
    · exact iff_of_false (fun hmove => hpq ⟨hmove.start_lt, hmove.target_lt⟩)
        fun hmove => hpq ⟨hsize ▸ hmove.start_lt, hsize ▸ hmove.target_lt⟩

/-- No deterministic automaton for the same language has fewer states.  Every state stands for a
left quotient of the language, and some state of the other automaton accepts it as well. -/
theorem size_le (hA : A.Minimal) (hE : E.Deterministic) (hlanguage : E.language = A.language) :
    A.size ≤ E.size := by
  have hsub : A.residuals ⊆ E.residuals := by
    intro R hR
    obtain ⟨p, hp, rfl⟩ := mem_residuals.mp hR
    obtain ⟨hreach, hends⟩ := OrderedSet.mem_inter.mp (hA.trim p hp)
    obtain ⟨v, hv⟩ := hA.deterministic.exists_leftQuotient_eq hreach
    obtain ⟨w, hw⟩ := mem_coAccessible.mp hends
    rw [← hv, ← hlanguage] at hw ⊢
    exact mem_residuals.mpr (hE.exists_languageFrom_eq hw)
  have hlength := (List.subperm_of_subset hA.nodup_residuals hsub).length_le
  rwa [length_residuals, length_residuals] at hlength

end Minimal

end Automaton

end FiniteState
