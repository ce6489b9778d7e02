import FiniteState.Proofs.Relation.Matching
/-!
The journal of a search.  An inquiry is recorded together with the moments at which something has
just happened to the memory: a proof has started, or a question has been answered.  The journal is a
run of a small transition system from the memory before to the memory after, so nothing that happens
in between is left out.
-/

namespace FiniteState

universe u

/-- What has just happened. -/
inductive Event where
  /-- The proof of a pair has started. -/
  | started (pair : StatePair)
  /-- A question about a pair, which was asked with the memory `before`, has been answered. -/
  | answered (pair : StatePair) (before : Memo) (answer : Bool)

/-- A proof that is under way, with the memory from before it was started. -/
structure OpenProof where
  pair : StatePair
  before : Memo

/-- A moment of a search: what has just happened, the proofs that are under way, the innermost one
first, and the memory as it is now. -/
structure Moment where
  event : Event
  opened : List OpenProof
  memo : Memo

section Chained

/-- What can happen next, with the proofs `opened` under way. -/
inductive Follows : List OpenProof → Memo → Moment → Prop where
  | start {opened : List OpenProof} {memo : Memo} {pair : StatePair} :
      pair ∉ memo.refuted → pair ∉ memo.assumed →
      Follows opened memo ⟨.started pair, ⟨pair, memo⟩ :: opened, memo.assume pair⟩
  | refuted {opened : List OpenProof} {memo : Memo} {pair : StatePair} :
      pair ∈ memo.refuted → Follows opened memo ⟨.answered pair memo false, opened, memo⟩
  | assumed {opened : List OpenProof} {memo : Memo} {pair : StatePair} :
      pair ∉ memo.refuted → pair ∈ memo.assumed →
      Follows opened memo ⟨.answered pair memo true, opened, memo⟩
  | succeed {opened : List OpenProof} {memo before : Memo} {pair : StatePair} :
      Follows (⟨pair, before⟩ :: opened) memo ⟨.answered pair before true, opened, memo⟩
  | fail {opened : List OpenProof} {memo before : Memo} {pair : StatePair} :
      Follows (⟨pair, before⟩ :: opened) memo
        ⟨.answered pair before false, opened, (memo.withdraw before.log.length).refute pair⟩

/-- Each moment of a journal follows on the one before it, from one situation to another. -/
inductive Chained : List OpenProof → Memo → List Moment → List OpenProof → Memo → Prop where
  | nil {opened : List OpenProof} {memo : Memo} : Chained opened memo [] opened memo
  | cons {opened opened' : List OpenProof} {memo memo' : Memo} {x : Moment} {rest : List Moment} :
      Follows opened memo x → Chained x.opened x.memo rest opened' memo' →
      Chained opened memo (x :: rest) opened' memo'

variable {opened opened' opened'' : List OpenProof} {memo memo' memo'' : Memo} {x : Moment}
  {journal journal' : List Moment} {pair : StatePair}

theorem Chained.append (h : Chained opened memo journal opened' memo')
    (h' : Chained opened' memo' journal' opened'' memo'') :
    Chained opened memo (journal ++ journal') opened'' memo'' := by
  induction h with
  | nil => exact h'
  | cons hfollows _ ih => exact .cons hfollows (ih h')

theorem Chained.concat (h : Chained opened memo journal opened' memo')
    (hx : Follows opened' memo' x) : Chained opened memo (journal ++ [x]) x.opened x.memo :=
  h.append (.cons hx .nil)

/-- Nothing that is refuted is ever forgotten. -/
theorem Follows.mem_refuted (h : Follows opened memo x) (hpair : pair ∈ memo.refuted) :
    pair ∈ x.memo.refuted := by
  cases h with
  | start _ _ => exact hpair
  | refuted _ => exact hpair
  | assumed _ _ => exact hpair
  | succeed => exact hpair
  | fail => exact LookupSet.mem_insert_iff.mpr (Or.inr hpair)

theorem Chained.mem_refuted (h : Chained opened memo journal opened' memo')
    (hpair : pair ∈ memo.refuted) : pair ∈ memo'.refuted := by
  induction h with
  | nil => exact hpair
  | cons hfollows _ ih => exact ih (hfollows.mem_refuted hpair)

end Chained

/-- An inquiry together with its journal, which begins with some proofs under way. -/
structure Recorded where
  ask : Inquiry
  journal : List OpenProof → Memo → List Moment

namespace Recorded

variable {α : Type u}

section Combinators

def answer (b : Bool) : Recorded :=
  ⟨Inquiry.answer b, fun _ _ => []⟩

def and (first second : Recorded) : Recorded where
  ask := first.ask.and second.ask
  journal opened memo :=
    first.journal opened memo ++
      if (first.ask memo).1 then second.journal opened (first.ask memo).2 else []

def or (first second : Recorded) : Recorded where
  ask memo := if (first.ask memo).1 then first.ask memo else second.ask (first.ask memo).2
  journal opened memo :=
    first.journal opened memo ++
      if (first.ask memo).1 then [] else second.journal opened (first.ask memo).2

def every (ask : α → Recorded) : List α → Recorded
  | [] => answer true
  | a :: rest => (ask a).and (every ask rest)

def some (ask : α → Recorded) : List α → Recorded
  | [] => answer false
  | a :: rest => (ask a).or (some ask rest)

def prove (pair : StatePair) (obligations : Recorded) : Recorded where
  ask := Inquiry.prove pair obligations.ask
  journal opened memo :=
    (if memo.knows pair then []
      else ⟨.started pair, ⟨pair, memo⟩ :: opened, memo.assume pair⟩ ::
        obligations.journal (⟨pair, memo⟩ :: opened) (memo.assume pair)) ++
      [⟨.answered pair memo (Inquiry.prove pair obligations.ask memo).1, opened,
        (Inquiry.prove pair obligations.ask memo).2⟩]

variable {ask : α → Recorded} {l : List α}

theorem ask_every : (every ask l).ask = Inquiry.every (fun a => (ask a).ask) l := by
  induction l with
  | nil => rfl
  | cons a rest ih =>
      funext memo
      rw [every, and, ih]
      rfl

theorem ask_some : (some ask l).ask = Inquiry.some (fun a => (ask a).ask) l := by
  induction l with
  | nil => rfl
  | cons a rest ih =>
      funext memo
      rw [some, or, ih, Inquiry.some]
      dsimp only
      rcases (ask a).ask memo with ⟨_ | _, after⟩ <;> rfl

end Combinators

section Gapless

/-- The journal leads from the memory before to the memory after, and all proofs that are started
are over then. -/
def Gapless (r : Recorded) : Prop :=
  ∀ opened memo, Chained opened memo (r.journal opened memo) opened (r.ask memo).2

variable {r r' : Recorded} {ask : α → Recorded} {pair : StatePair}

theorem gapless_answer (b : Bool) : (answer b).Gapless :=
  fun _ _ => .nil

theorem and_ask (memo : Memo) :
    (r.and r').ask memo = if (r.ask memo).1 then r'.ask (r.ask memo).2 else r.ask memo := by
  change Inquiry.and r.ask r'.ask memo = _
  rw [Inquiry.and]
  rcases r.ask memo with ⟨_ | _, after⟩ <;> rfl

theorem Gapless.and (h : r.Gapless) (h' : r'.Gapless) : (r.and r').Gapless := by
  intro opened memo
  rw [and_ask]
  dsimp only [Recorded.and]
  split
  · exact (h opened memo).append (h' opened _)
  · rw [List.append_nil]
    exact h opened memo

theorem Gapless.or (h : r.Gapless) (h' : r'.Gapless) : (r.or r').Gapless := by
  intro opened memo
  dsimp only [Recorded.or]
  split
  · rw [List.append_nil]
    exact h opened memo
  · exact (h opened memo).append (h' opened _)

theorem gapless_every (h : ∀ a, (ask a).Gapless) (l : List α) : (every ask l).Gapless := by
  induction l with
  | nil => exact gapless_answer true
  | cons a rest ih => exact (h a).and ih

theorem gapless_some (h : ∀ a, (ask a).Gapless) (l : List α) : (some ask l).Gapless := by
  induction l with
  | nil => exact gapless_answer false
  | cons a rest ih => exact (h a).or ih

theorem Gapless.prove (h : r.Gapless) : (prove pair r).Gapless := by
  intro opened memo
  dsimp only [Recorded.prove, Inquiry.prove]
  by_cases hrefuted : memo.refuted.contains pair = true
  · rw [if_pos hrefuted, if_pos (Memo.knows_iff.mpr (Or.inl hrefuted))]
    exact .cons (.refuted hrefuted) .nil
  · rw [if_neg hrefuted]
    by_cases hassumed : memo.assumed.contains pair = true
    · rw [if_pos hassumed, if_pos (Memo.knows_iff.mpr (Or.inr hassumed))]
      exact .cons (.assumed hrefuted hassumed) .nil
    · rw [if_neg hassumed, if_neg (mt Memo.knows_iff.mp (not_or.mpr ⟨hrefuted, hassumed⟩))]
      have hinner := h (⟨pair, memo⟩ :: opened) (memo.assume pair)
      refine .cons (.start hrefuted hassumed) ?_
      generalize r.ask (memo.assume pair) = result at hinner
      rcases result with ⟨_ | _, after⟩
      · exact hinner.concat .fail
      · exact hinner.concat .succeed

end Gapless

end Recorded

namespace Matching

variable {L : Type u} [Label L] {m : Matching L} {related : StatePair → Recorded}
  {pair : StatePair} {depth : Nat}

section Definitions

def recordedForth (m : Matching L) (related : StatePair → Recorded) (pair : StatePair) : Recorded :=
  Recorded.every
    (fun (move : Move L) =>
      Recorded.some (fun answer => related (move.state, answer))
        (m.right.successors pair.2 move.label))
    (m.left.outgoing pair.1).toList

def recordedBack (m : Matching L) (related : StatePair → Recorded) (pair : StatePair) : Recorded :=
  Recorded.every
    (fun (move : Move L) =>
      Recorded.some (fun answer => related (answer, move.state))
        (m.left.successors pair.1 move.label))
    (m.right.outgoing pair.2).toList

def recordedObligations (m : Matching L) (related : StatePair → Recorded) (pair : StatePair) :
    Recorded :=
  (Recorded.answer (m.flagsFit pair)).and
    ((m.recordedForth related pair).and
      (if m.twoSided then m.recordedBack related pair else Recorded.answer true))

def recordedSearch (m : Matching L) : Nat → StatePair → Recorded
  | 0, _ => Recorded.answer false
  | depth + 1, pair =>
      Recorded.prove pair (m.recordedObligations (m.recordedSearch depth) pair)

end Definitions

theorem ask_recordedForth :
    (m.recordedForth related pair).ask = m.forth (fun x => (related x).ask) pair := by
  simp only [recordedForth, forth, Recorded.ask_every, Recorded.ask_some]

theorem ask_recordedBack :
    (m.recordedBack related pair).ask = m.back (fun x => (related x).ask) pair := by
  simp only [recordedBack, back, Recorded.ask_every, Recorded.ask_some]

theorem ask_recordedObligations :
    (m.recordedObligations related pair).ask = m.obligations (fun x => (related x).ask) pair := by
  simp only [recordedObligations, obligations, Recorded.and, ask_recordedForth, Recorded.answer]
  split
  · rw [ask_recordedBack]
  · rfl

/-- The recorded search is the search. -/
theorem ask_recordedSearch : (m.recordedSearch depth pair).ask = m.search depth pair := by
  induction depth generalizing pair with
  | zero => rfl
  | succ depth ih =>
      rw [recordedSearch, search, Recorded.prove]
      simp only [ask_recordedObligations, ih]

theorem gapless_recordedObligations (h : ∀ x, (related x).Gapless) :
    (m.recordedObligations related pair).Gapless := by
  refine (Recorded.gapless_answer _).and (.and ?_ ?_)
  · exact Recorded.gapless_every (fun _ => Recorded.gapless_some (fun _ => h _) _) _
  · split
    · exact Recorded.gapless_every (fun _ => Recorded.gapless_some (fun _ => h _) _) _
    · exact Recorded.gapless_answer true

theorem gapless_recordedSearch (m : Matching L) (depth : Nat) (pair : StatePair) :
    (m.recordedSearch depth pair).Gapless := by
  induction depth generalizing pair with
  | zero => exact Recorded.gapless_answer false
  | succ depth ih => exact (gapless_recordedObligations ih).prove

end Matching

end FiniteState
