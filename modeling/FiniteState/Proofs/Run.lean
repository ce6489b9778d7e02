import Mathlib.Data.List.Basic
/-!
Runs through labelled moves.  A run reads the labels of its moves in order; moves without a label
read nothing.  The central fact is that runs can be copied: if every move of one node is answered
by an equal move of a related node, then so is every run.
-/

namespace FiniteState

universe u v w x

variable {L : Type u} {K : Type x} {α : Type v} {β : Type w}

/-- Reading a word leads from one node to another one. -/
inductive Run (moves : α → Option L → α → Prop) : α → List L → α → Prop where
  | done (a : α) : Run moves a [] a
  | silent {a b c : α} {w : List L} : moves a none b → Run moves b w c → Run moves a w c
  | read {a b c : α} {l : L} {w : List L} :
      moves a (some l) b → Run moves b w c → Run moves a (l :: w) c

theorem filterMap_toList (h : L → Option K) (l : Option L) :
    l.toList.filterMap h = (l.bind h).toList := by
  rw [List.filterMap_eq_flatMap_toList, Option.toList_bind]
  rfl

namespace Run

variable {moves : α → Option L → α → Prop} {moves' : β → Option L → β → Prop}

theorem step {a b c : α} {l : Option L} {w : List L} (hmove : moves a l b)
    (hrun : Run moves b w c) : Run moves a (l.toList ++ w) c := by
  cases l with
  | none => exact silent hmove hrun
  | some l => exact read hmove hrun

theorem single {a b : α} {l : Option L} (hmove : moves a l b) : Run moves a l.toList b := by
  simpa using step hmove (done b)

theorem append {a b c : α} {v w : List L} (hfirst : Run moves a v b) (hrest : Run moves b w c) :
    Run moves a (v ++ w) c := by
  induction hfirst with
  | done _ => exact hrest
  | silent hmove _ ih => exact silent hmove (ih hrest)
  | read hmove _ ih => exact read hmove (ih hrest)

theorem exists_of_append {a c : α} {v w : List L} (hrun : Run moves a (v ++ w) c) :
    ∃ b, Run moves a v b ∧ Run moves b w c := by
  generalize hvw : v ++ w = x at hrun
  induction hrun generalizing v with
  | done a =>
      obtain ⟨rfl, rfl⟩ := List.append_eq_nil_iff.mp hvw
      exact ⟨a, done a, done a⟩
  | silent hmove _ ih =>
      obtain ⟨b, hv, hw⟩ := ih hvw
      exact ⟨b, silent hmove hv, hw⟩
  | @read a _ _ _ _ hmove hrun ih =>
      cases v with
      | nil =>
          rw [List.nil_append] at hvw
          subst hvw
          exact ⟨a, done a, read hmove hrun⟩
      | cons l v =>
          simp only [List.cons_append, List.cons.injEq] at hvw
          obtain ⟨rfl, hvw⟩ := hvw
          obtain ⟨b, hv, hw⟩ := ih hvw
          exact ⟨b, read hmove hv, hw⟩

/-- A run that reads something first moves silently, then reads the first label. -/
theorem cons_iff {a c : α} {l : L} {w : List L} :
    Run moves a (l :: w) c ↔
      ∃ b b', Run moves a [] b ∧ moves b (some l) b' ∧ Run moves b' w c := by
  constructor
  · intro hrun
    generalize hx : l :: w = x at hrun
    induction hrun with
    | done _ => simp at hx
    | silent hmove _ ih =>
        obtain ⟨b, b', hsilent, hread, hrest⟩ := ih hx
        exact ⟨b, b', silent hmove hsilent, hread, hrest⟩
    | @read a b _ _ _ hmove hrun _ =>
        simp only [List.cons.injEq] at hx
        obtain ⟨rfl, rfl⟩ := hx
        exact ⟨a, b, done a, hmove, hrun⟩
  · intro h
    rcases h with ⟨b, b', hsilent, hread, hrest⟩
    exact hsilent.append (read hread hrest)

/-- A run that reads something reads the last label at some move, and moves silently from there. -/
theorem concat_iff {a c : α} {l : L} {w : List L} :
    Run moves a (w ++ [l]) c ↔
      ∃ b b', Run moves a w b ∧ moves b (some l) b' ∧ Run moves b' [] c := by
  constructor
  · intro hrun
    obtain ⟨b, hw, hl⟩ := hrun.exists_of_append
    obtain ⟨d, d', hsilent, hread, hrest⟩ := cons_iff.mp hl
    refine ⟨d, d', ?_, hread, hrest⟩
    rw [← List.append_nil w]
    exact hw.append hsilent
  · intro h
    rcases h with ⟨b, b', hw, hread, hrest⟩
    exact hw.append (read hread hrest)

/-- Induction on the moves of a run from its start, without regard to what they read. -/
@[elab_as_elim]
theorem inductionOnMoves {motive : (a : α) → (w : List L) → (c : α) → Run moves a w c → Prop}
    (done : ∀ a, motive a [] a (done a))
    (step : ∀ (a b c : α) (l : Option L) (w : List L) (hmove : moves a l b)
      (hrun : Run moves b w c), motive b w c hrun →
        motive a (l.toList ++ w) c (step hmove hrun))
    {a : α} {w : List L} {c : α} (hrun : Run moves a w c) : motive a w c hrun := by
  induction hrun with
  | done a => exact done a
  | silent hmove hrun ih => exact step _ _ _ none _ hmove hrun ih
  | @read _ _ _ l _ hmove hrun ih => exact step _ _ _ (some l) _ hmove hrun ih

/-- If moves are answered by equal moves of related nodes, so are runs. -/
theorem simulate (related : α → β → Prop)
    (hanswer : ∀ a b l a', related a b → moves a l a' → ∃ b', moves' b l b' ∧ related a' b')
    {a a' : α} {w : List L} (hrun : Run moves a w a') {b : β} (hab : related a b) :
    ∃ b', Run moves' b w b' ∧ related a' b' := by
  induction hrun using inductionOnMoves generalizing b with
  | done _ => exact ⟨b, done b, hab⟩
  | step a a₁ _ l w hmove _ ih =>
      obtain ⟨b₁, hmove', hab₁⟩ := hanswer a b l a₁ hab hmove
      obtain ⟨b', hrun', hab'⟩ := ih hab₁
      exact ⟨b', step hmove' hrun', hab'⟩

theorem map (f : α → β) (hf : ∀ a l a', moves a l a' → moves' (f a) l (f a')) {a a' : α}
    {w : List L} (hrun : Run moves a w a') : Run moves' (f a) w (f a') := by
  induction hrun using inductionOnMoves with
  | done a => exact done (f a)
  | step a a₁ _ l w hmove _ ih => exact step (hf a l a₁ hmove) ih

/-- If every move is answered by a run over the image of what it reads, so is every run.  What is
erased may be answered by silent moves, or by none at all. -/
theorem filterMap {answers : α → Option K → α → Prop} (h : L → Option K)
    (hanswer : ∀ a l b, moves a l b → Run answers a (l.bind h).toList b) {a b : α} {w : List L}
    (hrun : Run moves a w b) : Run answers a (w.filterMap h) b := by
  induction hrun using inductionOnMoves with
  | done a => exact done a
  | step a c b l w hmove _ ih =>
      rw [List.filterMap_append, filterMap_toList]
      exact (hanswer a l c hmove).append ih

theorem exists_moves_of_mem {a b : α} {w : List L} {l : L} (hrun : Run moves a w b) (hl : l ∈ w) :
    ∃ c d, moves c (some l) d := by
  obtain ⟨u, v, rfl⟩ := List.append_of_mem hl
  obtain ⟨_, -, hrest⟩ := hrun.exists_of_append
  obtain ⟨c, d, -, hmove, -⟩ := cons_iff.mp hrest
  exact ⟨c, d, hmove⟩

/-- The end of a run is related to its start by whatever is kept by all moves. -/
theorem preserves {p : α → Prop} (hp : ∀ a l b, p a → moves a l b → p b) {a b : α} {w : List L}
    (hrun : Run moves a w b) (ha : p a) : p b := by
  induction hrun using inductionOnMoves with
  | done _ => exact ha
  | step a a₁ _ l w hmove _ ih => exact ih (hp a l a₁ ha hmove)

/-- The end of a silent run has whatever its start has and all silent moves keep. -/
theorem preserves_silently {p : α → Prop} (hp : ∀ a b, p a → moves a none b → p b) {a b : α}
    (hrun : Run moves a [] b) (ha : p a) : p b := by
  generalize hw : ([] : List L) = w at hrun
  induction hrun with
  | done _ => exact ha
  | silent hmove _ ih => exact ih (hp _ _ ha hmove) hw
  | read _ _ _ => simp at hw

/-- A map that keeps silent moves keeps silent runs, whatever the other moves read. -/
theorem map_silently {answers : β → Option K → β → Prop} (f : α → β)
    (hf : ∀ a b, moves a none b → answers (f a) none (f b)) {a b : α} (hrun : Run moves a [] b) :
    Run answers (f a) [] (f b) :=
  hrun.preserves_silently (p := fun c => Run answers (f a) [] (f c))
    (fun c d hc hmove => hc.append (single (hf c d hmove))) (done (f a))

end Run

end FiniteState
