import FiniteState.Construction.Regular
import FiniteState.Proofs.Construction.Determinization
/-!
The complement over a set of letters.  In every state there is exactly one move for every letter,
so what a state accepts is just what the state of the determinized automaton does not accept; the
additional state stands for the rejection of everything.  The letters may be any, whether the
automaton reads them or not.
-/

namespace FiniteState

universe u

variable {L : Type u} [Label L]

namespace Automaton

variable {A D : Automaton L} {letters : OrderedSet L} {p q x y : Nat} {l : L} {label : Option L}
  {w : List L}

section Target

/-- The state that a letter leads to in a deterministic automaton, and the next number if it leads
to none. -/
def targetOf (D : Automaton L) (p : Nat) (l : L) : Nat :=
  ((D.successors p (some l)).head?).getD D.size

theorem targetOf_eq (hD : D.Deterministic) (hmove : D.Moves p (some l) q) : D.targetOf p l = q := by
  have hmem := mem_successors.mpr hmove
  rw [targetOf]
  cases hs : D.successors p (some l) with
  | nil =>
      rw [hs] at hmem
      exact absurd hmem List.not_mem_nil
  | cons r rest =>
      have hr : D.Moves p (some l) r := mem_successors.mp (hs ▸ List.mem_cons_self)
      exact hD.functional p (some l) r q hr hmove

theorem targetOf_eq_size (hmove : ∀ q, ¬ D.Moves p (some l) q) : D.targetOf p l = D.size := by
  have hs : D.successors p (some l) = [] :=
    List.eq_nil_iff_forall_not_mem.mpr fun q hq => hmove q (mem_successors.mp hq)
  rw [targetOf, hs]
  rfl

theorem languageFrom_size (D : Automaton L) : D.languageFrom D.size = 0 :=
  Set.eq_empty_of_forall_notMem fun _ hw =>
    absurd (lt_size_of_mem_languageFrom hw) (Nat.lt_irrefl _)

theorem mem_languageFrom_targetOf (hD : D.Deterministic) :
    w ∈ D.languageFrom (D.targetOf p l) ↔ l :: w ∈ D.languageFrom p := by
  by_cases hmove : ∃ q, D.Moves p (some l) q
  · obtain ⟨q, hmove⟩ := hmove
    rw [targetOf_eq hD hmove, ← hD.leftQuotient_eq hmove]
    rfl
  · rw [targetOf_eq_size (not_exists.mp hmove), languageFrom_size,
      cons_mem_languageFrom hD.not_silent]
    constructor
    · exact fun hw => absurd hw (Language.notMem_zero w)
    · exact fun ⟨q, hq, _⟩ => absurd ⟨q, hq⟩ hmove

theorem lacksTransition_iff :
    D.lacksTransition letters = true ↔
      ∃ p < D.size, ∃ l ∈ letters, ∀ q, ¬ D.Moves p (some l) q := by
  simp only [lacksTransition, List.any_eq_true, mem_states, List.isEmpty_iff,
    List.eq_nil_iff_forall_not_mem, mem_successors, OrderedSet.mem_toList]

end Target

section Complement

/-- The additional state, if one is needed. -/
def sinkOf (D : Automaton L) (letters : OrderedSet L) : List Nat :=
  if D.lacksTransition letters then [D.size] else []

theorem getElem?_sinkOf :
    (D.sinkOf letters)[p]? = some x ↔ p = 0 ∧ x = D.size ∧ D.lacksTransition letters = true := by
  rw [sinkOf]
  split
  · rename_i h
    rw [and_iff_left h, List.getElem?_singleton]
    split
    · rename_i hp
      rw [and_iff_right hp, Option.some.injEq, eq_comm]
    · rename_i hp
      simp [hp]
  · rename_i h
    simp [h]

theorem mem_sinkOf : x ∈ D.sinkOf letters ↔ x = D.size ∧ D.lacksTransition letters = true := by
  rw [List.mem_iff_getElem?]
  simp only [getElem?_sinkOf, exists_eq_left]

theorem complementOver_eq (A : Automaton L) (letters : OrderedSet L) :
    A.complementOver letters =
      ofParts
        (A.determinize.flags.map (fun f => { f with terminal := !f.terminal }) ++
          (A.determinize.sinkOf letters).map fun _ => ⟨false, true⟩)
        (A.determinize.states.flatMap (fun p => letters.toList.map fun l =>
            ⟨p, some l, A.determinize.targetOf p l⟩) ++
          (A.determinize.sinkOf letters).flatMap fun s => letters.toList.map fun l =>
            ⟨s, some l, s⟩) :=
  rfl

/-- The states are those of the determinized automaton, and one more if it lacks a transition. -/
theorem lt_size_complementOver :
    x < (A.complementOver letters).size ↔
      x < A.determinize.size ∨ x ∈ A.determinize.sinkOf letters := by
  rw [complementOver_eq, size_ofParts, List.length_append, List.length_map, length_flags,
    List.length_map, mem_sinkOf, sinkOf]
  split
  · rename_i h
    rw [List.length_singleton, and_iff_left h]
    omega
  · rename_i h
    simp [h]

theorem isInitial_complementOver :
    (A.complementOver letters).isInitial x = true ↔ A.determinize.isInitial x = true := by
  rw [complementOver_eq, isInitial_ofParts, any_getElem?_append, List.getElem?_map, Option.any_map,
    ← any_initial_flags]
  apply or_iff_left
  intro h
  rcases h with ⟨p, -, hp⟩
  rw [List.getElem?_map, Option.any_map, Option.any_eq_true] at hp
  obtain ⟨_, -, hfalse⟩ := hp
  exact absurd hfalse (by simp)

theorem isTerminal_complementOver :
    (A.complementOver letters).isTerminal x = true ↔
      x < (A.complementOver letters).size ∧ A.determinize.isTerminal x = false := by
  have hfront : (A.determinize.flags.map fun f => { f with terminal := !f.terminal })[x]?.any
      Flags.terminal = true ↔ x < A.determinize.size ∧ A.determinize.isTerminal x = false := by
    rw [flags, List.map_map, states, any_map_range]
    simp
  have hback : (∃ p, x = p + A.determinize.size ∧
      ((A.determinize.sinkOf letters).map fun _ => (⟨false, true⟩ : Flags))[p]?.any
        Flags.terminal = true) ↔
      x ∈ A.determinize.sinkOf letters ∧ A.determinize.isTerminal x = false := by
    simp only [List.getElem?_map, Option.any_map, Option.any_eq_true, and_true,
      getElem?_sinkOf, mem_sinkOf]
    constructor
    · intro h
      rcases h with ⟨p, rfl, y, rfl, rfl, hlacks⟩
      refine ⟨⟨Nat.zero_add _, hlacks⟩, ?_⟩
      rw [Nat.zero_add]
      exact Bool.eq_false_iff.mpr fun h => Nat.lt_irrefl _ (lt_size_of_isTerminal h)
    · intro h
      rcases h with ⟨⟨rfl, hlacks⟩, -⟩
      exact ⟨0, (Nat.zero_add _).symm, _, rfl, rfl, hlacks⟩
  rw [lt_size_complementOver, or_and_right, ← hfront, ← hback, complementOver_eq,
    isTerminal_ofParts, any_getElem?_append, List.length_map, length_flags]

theorem targetOf_size (D : Automaton L) (l : L) : D.targetOf D.size l = D.size :=
  targetOf_eq_size fun _ hmove => Nat.lt_irrefl _ hmove.start_lt

/-- A letter leads to a state of the complement: if it leads nowhere, the additional state
exists. -/
theorem targetOf_lt_size_complementOver (hx : x < A.determinize.size) (hl : l ∈ letters) :
    A.determinize.targetOf x l < (A.complementOver letters).size := by
  rw [lt_size_complementOver, mem_sinkOf, lacksTransition_iff]
  by_cases hmove : ∃ q, A.determinize.Moves x (some l) q
  · obtain ⟨q, hmove⟩ := hmove
    rw [targetOf_eq A.deterministic_determinize hmove]
    exact Or.inl hmove.target_lt
  · exact Or.inr ⟨targetOf_eq_size (not_exists.mp hmove), x, hx, l, hl, not_exists.mp hmove⟩

theorem mem_flatMap_letters {states : List Nat} {target : Nat → L → Nat} :
    (⟨x, label, y⟩ : Transition L) ∈
        states.flatMap (fun p => letters.toList.map fun l => ⟨p, some l, target p l⟩) ↔
      x ∈ states ∧ ∃ l ∈ letters, label = some l ∧ y = target x l := by
  simp only [List.mem_flatMap, List.mem_map, Transition.mk.injEq, OrderedSet.mem_toList]
  constructor
  · intro h
    rcases h with ⟨p, hp, l, hl, rfl, rfl, rfl⟩
    exact ⟨hp, l, hl, rfl, rfl⟩
  · intro h
    rcases h with ⟨hx, l, hl, rfl, rfl⟩
    exact ⟨x, hx, l, hl, rfl, rfl, rfl⟩

theorem moves_complementOver :
    (A.complementOver letters).Moves x label y ↔
      x < (A.complementOver letters).size ∧
        ∃ l ∈ letters, label = some l ∧ y = A.determinize.targetOf x l := by
  have hparts : (A.complementOver letters).Moves x label y ↔
      ((x ∈ A.determinize.states ∧
          ∃ l ∈ letters, label = some l ∧ y = A.determinize.targetOf x l) ∨
        (x ∈ A.determinize.sinkOf letters ∧ ∃ l ∈ letters, label = some l ∧ y = x)) ∧
      x < (A.complementOver letters).size ∧ y < (A.complementOver letters).size := by
    rw [complementOver_eq, moves_ofParts, size_ofParts, List.mem_append, mem_flatMap_letters,
      mem_flatMap_letters]
  have hloop (hx : x ∈ A.determinize.sinkOf letters) (l : L) :
      A.determinize.targetOf x l = x := by
    rw [(mem_sinkOf.mp hx).1, targetOf_size]
  rw [hparts]
  constructor
  · intro h
    rcases h with ⟨⟨-, hmove⟩ | ⟨hx, l, hl, rfl, rfl⟩, hlt, -⟩
    · exact ⟨hlt, hmove⟩
    · exact ⟨hlt, l, hl, rfl, (hloop hx l).symm⟩
  · intro h
    rcases h with ⟨hlt, l, hl, rfl, rfl⟩
    rcases lt_size_complementOver.mp hlt with hx | hx
    · exact ⟨Or.inl ⟨mem_states.mpr hx, l, hl, rfl, rfl⟩, hlt,
        targetOf_lt_size_complementOver hx hl⟩
    · rw [hloop hx l]
      exact ⟨Or.inr ⟨hx, l, hl, rfl, rfl⟩, hlt, hlt⟩

theorem deterministic_complementOver (A : Automaton L) (letters : OrderedSet L) :
    (A.complementOver letters).Deterministic := by
  constructor
  · intro x y hx hy
    exact A.deterministic_determinize.initial_unique x y (isInitial_complementOver.mp hx)
      (isInitial_complementOver.mp hy)
  · intro x y hmove
    obtain ⟨-, l, -, hl, -⟩ := moves_complementOver.mp hmove
    cases hl
  · intro x label y y' hmove hmove'
    obtain ⟨-, l, -, rfl, rfl⟩ := moves_complementOver.mp hmove
    obtain ⟨-, l', -, hl, rfl⟩ := moves_complementOver.mp hmove'
    cases hl
    rfl

theorem mem_languageFrom_complementOver (hx : x < (A.complementOver letters).size) :
    w ∈ (A.complementOver letters).languageFrom x ↔
      (∀ l ∈ w, l ∈ letters) ∧ w ∉ A.determinize.languageFrom x := by
  have hD := A.deterministic_determinize
  have hfree := (A.deterministic_complementOver letters).not_silent
  induction w generalizing x with
  | nil =>
      rw [nil_mem_languageFrom hfree, nil_mem_languageFrom hD.not_silent, isTerminal_complementOver,
        Bool.not_eq_true, and_iff_right hx]
      simp
  | cons l w ih =>
      rw [cons_mem_languageFrom hfree, List.forall_mem_cons, ← mem_languageFrom_targetOf hD]
      constructor
      · intro h
        rcases h with ⟨y, hmove, hw⟩
        obtain ⟨-, l', hl, heq, rfl⟩ := moves_complementOver.mp hmove
        cases heq
        obtain ⟨hletters, hnot⟩ := (ih hmove.target_lt).mp hw
        exact ⟨⟨hl, hletters⟩, hnot⟩
      · intro h
        rcases h with ⟨⟨hl, hletters⟩, hnot⟩
        have hmove := moves_complementOver.mpr ⟨hx, l, hl, rfl, rfl⟩
        exact ⟨_, hmove, (ih hmove.target_lt).mpr ⟨hletters, hnot⟩⟩

/-- The complement accepts the words over the letters that the automaton does not accept. -/
theorem mem_language_complementOver :
    w ∈ (A.complementOver letters).language ↔ (∀ l ∈ w, l ∈ letters) ∧ w ∉ A.language := by
  obtain ⟨i, hi⟩ := A.exists_isInitial_determinize
  have hcomplement : (A.complementOver letters).isInitial i = true :=
    isInitial_complementOver.mpr hi
  have hiff := mem_languageFrom_complementOver (w := w) (lt_size_of_isInitial hcomplement)
  have hD := A.deterministic_determinize
  rw [← A.language_determinize, hD.language_eq hi, ← hiff]
  constructor
  · intro h
    rcases h with ⟨x, hx, hw⟩
    rwa [hD.initial_unique i x hi (isInitial_complementOver.mp hx)]
  · exact fun hw => ⟨i, hcomplement, hw⟩

end Complement

section Total

/-- The initial state is that of the determinized automaton, which has one even if the automaton has
none. -/
theorem initials_complementOver (A : Automaton L) (letters : OrderedSet L) :
    ∃ i, (A.complementOver letters).initials.toList = [i] := by
  obtain ⟨i, hi⟩ := A.exists_isInitial_determinize
  have hinitial : (A.complementOver letters).isInitial i = true := isInitial_complementOver.mpr hi
  exact ⟨i, (A.deterministic_complementOver letters).toList_initials hinitial⟩

theorem successors_complementOver (hx : x < (A.complementOver letters).size) (hl : l ∈ letters) :
    (A.complementOver letters).successors x (some l) = [A.determinize.targetOf x l] := by
  refine successors_eq_singleton_iff.mpr fun y => ?_
  rw [moves_complementOver]
  constructor
  · rintro ⟨-, l', -, hl', rfl⟩
    cases hl'
    rfl
  · rintro rfl
    exact ⟨hx, l, hl, rfl, rfl⟩

/-- As there is an initial state, no letter is left out. -/
theorem alphabet_complementOver (A : Automaton L) (letters : OrderedSet L) :
    (A.complementOver letters).alphabet = letters := by
  apply OrderedSet.eq_of_mem_iff
  intro l
  rw [mem_alphabet]
  constructor
  · rintro ⟨x, y, hmove⟩
    obtain ⟨-, l', hl', heq, -⟩ := moves_complementOver.mp hmove
    cases heq
    exact hl'
  · intro hl
    obtain ⟨i, hi⟩ := A.exists_isInitial_determinize
    have hstart : (A.complementOver letters).isInitial i = true := isInitial_complementOver.mpr hi
    exact ⟨i, _, moves_complementOver.mpr ⟨lt_size_of_isInitial hstart, l, hl, rfl, rfl⟩⟩

/-- The complement accepts the words over the letters that the automaton does not accept.  It is
deterministic, has one initial state, and reads in every state each of the letters in exactly one
way, and nothing else. -/
theorem complementOver_is_total_complement (A : Automaton L) (letters : OrderedSet L) :
    (∀ w, (A.complementOver letters).accepts w = true ↔
      (∀ l ∈ w, l ∈ letters) ∧ A.accepts w = false) ∧
    (A.complementOver letters).isDeterministic = true ∧
    (∃ i, (A.complementOver letters).initials.toList = [i]) ∧
    (A.complementOver letters).alphabet = letters ∧
    ∀ x ∈ (A.complementOver letters).states, ∀ l ∈ letters,
      ∃ y, (A.complementOver letters).successors x (some l) = [y] := by
  refine ⟨fun w => ?_, isDeterministic_iff.mpr (A.deterministic_complementOver letters),
    A.initials_complementOver letters, A.alphabet_complementOver letters, fun x hx l hl => ?_⟩
  · rw [accepts_iff_mem_language, mem_language_complementOver, ← accepts_iff_mem_language,
      Bool.not_eq_true]
  · exact ⟨_, successors_complementOver (mem_states.mp hx) hl⟩

/-- The letters need not have anything to do with those of the automaton: what it reads besides is
dropped, and what it does not read leads to the additional state. -/
example :
    let onlyB := (letter 'a').complementOver (.ofList ['b'])
    onlyB.accepts ['b', 'b'] = true ∧ onlyB.accepts ['a'] = false ∧
      onlyB.accepts ['a', 'a'] = false ∧ onlyB.size = 3 := by
  decide +kernel

end Total

end Automaton

end FiniteState
