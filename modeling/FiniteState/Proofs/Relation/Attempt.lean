import FiniteState.Proofs.Relation.Bookkeeping
/-!
The search as a recursion that may be too deep.  It is given a limit of calls that may be inside
each other, and it has no result where more of them would be needed, so a search that never came to
an end would have none under any limit.  From a memory that is sound it has the same result under
every limit that is large enough, which is that of the search within the depth that is left, and
what happens on the way is the same.
-/

namespace FiniteState

universe u v

/-- How far a search has come: the proofs under way, the memory, and what has happened. -/
structure SearchState where
  opened : List OpenProof
  memo : Memo
  journal : List Moment

namespace SearchState

def begin (memo : Memo) : SearchState :=
  ⟨[], memo, []⟩

/-- Write down what has just happened. -/
def note (s : SearchState) (event : Event) : SearchState :=
  { s with journal := s.journal ++ [⟨event, s.opened, s.memo⟩] }

def start (s : SearchState) (pair : StatePair) : SearchState :=
  note ⟨⟨pair, s.memo⟩ :: s.opened, s.memo.assume pair, s.journal⟩ (.started pair)

/-- End the innermost proof, which was started with the memory `before`. -/
def close (s : SearchState) (pair : StatePair) (before : Memo) (proved : Bool) : SearchState :=
  let memo := if proved then s.memo else (s.memo.withdraw before.log.length).refute pair
  note ⟨s.opened.tail, memo, s.journal⟩ (.answered pair before proved)

end SearchState

/-- A search for an answer.  It has no result if it is too deep. -/
abbrev Attempt := StateT SearchState Option Bool

namespace Matching

variable {L : Type u} [Label L]

/-- For every move that has to be answered, the pairs one of which has to be related. -/
def challenges (m : Matching L) (pair : StatePair) : List (List StatePair) :=
  ((m.left.outgoing pair.1).toList.map fun move =>
      (m.right.successors pair.2 move.label).map fun answer => (move.state, answer)) ++
    if m.twoSided then
      (m.right.outgoing pair.2).toList.map fun move =>
        (m.left.successors pair.1 move.label).map fun answer => (answer, move.state)
    else []

section Search

variable (m : Matching L)

/-- Search for a proof that a pair is related, with at most as many calls inside each other as the
limit allows. -/
def attempt : Nat → StatePair → Attempt
  | 0, _ => fun _ => none
  | limit + 1, pair => do
      let before := (← get).memo
      if before.knows pair then
        let known := !before.refutes pair
        modify fun s => s.note (.answered pair before known)
        return known
      else
        modify fun s => s.start pair
        let proved ←
          (if m.flagsFit pair then
            (m.challenges pair).allM fun answers => answers.anyM (attempt limit)
          else pure false)
        modify fun s => s.close pair before proved
        return proved

end Search

end Matching

section Recorded

namespace Recorded

variable {α : Type u} {β : Type v} {ask : α → Recorded}

theorem ext {r r' : Recorded} (hask : r.ask = r'.ask) (hjournal : r.journal = r'.journal) :
    r = r' := by
  cases r
  cases r'
  exact (Recorded.mk.injEq ..).mpr ⟨hask, hjournal⟩

theorem and_journal (r r' : Recorded) (opened : List OpenProof) (memo : Memo) :
    (r.and r').journal opened memo =
      r.journal opened memo ++
        if (r.ask memo).1 then r'.journal opened (r.ask memo).2 else [] :=
  rfl

protected theorem and_assoc (r r' r'' : Recorded) : (r.and r').and r'' = r.and (r'.and r'') := by
  have hask : ((r.and r').and r'').ask = (r.and (r'.and r'')).ask := by
    funext memo
    simp only [and_ask]
    split <;> rfl
  have hjournal : ((r.and r').and r'').journal = (r.and (r'.and r'')).journal := by
    funext opened memo
    change (r.journal opened memo ++ _) ++ _ = r.journal opened memo ++ _
    rw [List.append_assoc, and_ask]
    split <;> rfl
  exact Recorded.ext hask hjournal

theorem every_append (l l' : List α) :
    every ask (l ++ l') = (every ask l).and (every ask l') := by
  induction l with
  | nil => rfl
  | cons a l ih => rw [List.cons_append, every, every, ih, Recorded.and_assoc]

theorem every_map {f : β → α} (l : List β) :
    every ask (l.map f) = every (fun b => ask (f b)) l := by
  induction l with
  | nil => rfl
  | cons b l ih => rw [List.map_cons, every, every, ih]

theorem some_map {f : β → α} (l : List β) :
    some ask (l.map f) = some (fun b => ask (f b)) l := by
  induction l with
  | nil => rfl
  | cons b l ih => rw [List.map_cons, some, some, ih]

end Recorded

/-- Where an inquiry leads to from a point of the search. -/
def Recorded.outcome (r : Recorded) (s : SearchState) : Bool × SearchState :=
  ((r.ask s.memo).1, ⟨s.opened, (r.ask s.memo).2, s.journal ++ r.journal s.opened s.memo⟩)

theorem Recorded.outcome_answer (b : Bool) (s : SearchState) : (answer b).outcome s = (b, s) := by
  rw [outcome, answer, List.append_nil]
  rfl

theorem Recorded.outcome_and (r r' : Recorded) (s : SearchState) :
    (r.and r').outcome s =
      if (r.outcome s).1 then r'.outcome (r.outcome s).2 else (false, (r.outcome s).2) := by
  by_cases hyes : (r.ask s.memo).1 = true
  · simp [outcome, and_ask, and_journal, hyes]
  · simp [outcome, and_ask, and_journal, hyes]

theorem Recorded.outcome_or (r r' : Recorded) (s : SearchState) :
    (r.or r').outcome s =
      if (r.outcome s).1 then (true, (r.outcome s).2) else r'.outcome (r.outcome s).2 := by
  by_cases hyes : (r.ask s.memo).1 = true
  · simp [outcome, Recorded.or, hyes]
  · simp [outcome, Recorded.or, hyes]

theorem Recorded.outcome_prove_of_knows {r : Recorded} {pair : StatePair} {s : SearchState}
    (hknows : s.memo.knows pair = true) :
    (prove pair r).outcome s =
      (!s.memo.refutes pair, s.note (.answered pair s.memo (!s.memo.refutes pair))) := by
  have hprove : Inquiry.prove pair r.ask s.memo = (!s.memo.refutes pair, s.memo) := by
    unfold Inquiry.prove Memo.refutes
    by_cases hrefuted : s.memo.refuted.contains pair = true
    · rw [if_pos hrefuted, hrefuted]
      rfl
    · have hassumed : s.memo.assumed.contains pair = true :=
        (Memo.knows_iff.mp hknows).resolve_left hrefuted
      rw [if_neg hrefuted, if_pos hassumed, Bool.eq_false_iff.mpr hrefuted]
      rfl
  dsimp only [outcome, prove, SearchState.note]
  rw [hprove, if_pos hknows, List.nil_append]

/-- Any other pair is proved, or refuted, by its obligations. -/
theorem Recorded.outcome_prove_of_not_knows {r : Recorded} {pair : StatePair} {s : SearchState}
    (hknows : ¬ s.memo.knows pair = true) :
    (prove pair r).outcome s =
      ((r.outcome (s.start pair)).1,
        (r.outcome (s.start pair)).2.close pair s.memo (r.outcome (s.start pair)).1) := by
  obtain ⟨hrefuted, hassumed⟩ := not_or.mp (mt Memo.knows_iff.mpr hknows)
  dsimp only [outcome, prove, SearchState.note, SearchState.start, SearchState.close]
  rw [Inquiry.prove_of_not_mem hrefuted hassumed, if_neg hknows]
  by_cases hyes : (r.ask (s.memo.assume pair)).1 = true
  · simp [hyes]
  · simp [hyes]

end Recorded

section Ends

variable {needs : (StatePair → Prop) → StatePair → Prop} {space : List StatePair} {depth : Nat}

/-- From every memory that is sound, with as many assumptions left as the depth allows, the attempt
comes to an end, and it comes out as the inquiry does. -/
def Attempt.EndsAs (needs : (StatePair → Prop) → StatePair → Prop) (space : List StatePair)
    (depth : Nat) (attempt : Attempt) (r : Recorded) : Prop :=
  ∀ s : SearchState, s.memo.Ready needs space depth (s.opened.map OpenProof.pair) →
    attempt.run s = some (r.outcome s)

variable {α : Type} {f : α → Attempt} {ask : α → Recorded} {l : List α}

theorem Attempt.endsAs_answer (b : Bool) :
    Attempt.EndsAs needs space depth (pure b) (Recorded.answer b) := by
  intro s _
  rw [Recorded.outcome_answer]
  rfl

/-- Asking a second question if the answer to the first one is yes. -/
theorem Attempt.EndsAs.and {attempt attempt' : Attempt} {r r' : Recorded}
    (h : attempt.EndsAs needs space depth r) (horderly : r.Orderly needs space depth)
    (h' : attempt'.EndsAs needs space depth r') :
    Attempt.EndsAs needs space depth
      (do if ← attempt then attempt' else pure false) (r.and r') := by
  intro s hs
  have hready := horderly.ready _ s.memo hs
  rw [StateT.run_bind, h s hs, Option.bind_eq_bind, Option.bind_some, Recorded.outcome_and]
  split
  · exact h' _ hready
  · rfl

/-- Asking a second question if the answer to the first one is no. -/
theorem Attempt.EndsAs.or {attempt attempt' : Attempt} {r r' : Recorded}
    (h : attempt.EndsAs needs space depth r) (horderly : r.Orderly needs space depth)
    (h' : attempt'.EndsAs needs space depth r') :
    Attempt.EndsAs needs space depth (do if ← attempt then pure true else attempt') (r.or r') := by
  intro s hs
  have hready := horderly.ready _ s.memo hs
  rw [StateT.run_bind, h s hs, Option.bind_eq_bind, Option.bind_some, Recorded.outcome_or]
  split
  · rfl
  · exact h' _ hready

theorem Attempt.endsAs_every (h : ∀ a ∈ l, Attempt.EndsAs needs space depth (f a) (ask a))
    (horderly : ∀ a ∈ l, (ask a).Orderly needs space depth) :
    Attempt.EndsAs needs space depth (l.allM f) (Recorded.every ask l) := by
  induction l with
  | nil => exact endsAs_answer true
  | cons a l ih =>
      obtain ⟨ha, hl⟩ := List.forall_mem_cons.mp h
      obtain ⟨hordera, horderl⟩ := List.forall_mem_cons.mp horderly
      rw [List.allM_cons]
      exact ha.and hordera (ih hl horderl)

theorem Attempt.endsAs_some (h : ∀ a ∈ l, Attempt.EndsAs needs space depth (f a) (ask a))
    (horderly : ∀ a ∈ l, (ask a).Orderly needs space depth) :
    Attempt.EndsAs needs space depth (l.anyM f) (Recorded.some ask l) := by
  induction l with
  | nil => exact endsAs_answer false
  | cons a l ih =>
      obtain ⟨ha, hl⟩ := List.forall_mem_cons.mp h
      obtain ⟨hordera, horderl⟩ := List.forall_mem_cons.mp horderly
      rw [List.anyM_cons]
      exact ha.or hordera (ih hl horderl)

end Ends

namespace Matching

variable {L : Type u} [Label L] {m : Matching L} {depth limit : Nat} {pair : StatePair}

theorem recordedObligations_eq (related : StatePair → Recorded) :
    m.recordedObligations related pair =
      (Recorded.answer (m.flagsFit pair)).and
        (Recorded.every (Recorded.some related) (m.challenges pair)) := by
  have hback : (Recorded.every (Recorded.some related)
      (if m.twoSided then
        (m.right.outgoing pair.2).toList.map fun move =>
          (m.left.successors pair.1 move.label).map fun answer => (answer, move.state)
      else [])) = if m.twoSided then m.recordedBack related pair else Recorded.answer true := by
    split
    · rw [Recorded.every_map, recordedBack]
      simp only [Recorded.some_map]
    · rfl
  rw [recordedObligations, challenges, Recorded.every_append, hback, Recorded.every_map,
    recordedForth]
  simp only [Recorded.some_map]

/-- The obligations of a pair, discharged by searches under a limit. -/
def discharge (m : Matching L) (limit : Nat) (pair : StatePair) : Attempt :=
  if m.flagsFit pair then (m.challenges pair).allM fun answers => answers.anyM (m.attempt limit)
  else pure false

theorem attempt_of_knows {s : SearchState} (hknows : s.memo.knows pair = true) :
    (m.attempt (limit + 1) pair).run s =
      some (!s.memo.refutes pair, s.note (.answered pair s.memo (!s.memo.refutes pair))) := by
  rw [attempt, StateT.run_bind, StateT.run_get, Option.pure_def, Option.bind_eq_bind,
    Option.bind_some, if_pos hknows]
  rfl

/-- The proof of any other pair is started, and it succeeds if its obligations can be discharged. -/
theorem attempt_of_not_knows {s : SearchState} (hknows : ¬ s.memo.knows pair = true) :
    (m.attempt (limit + 1) pair).run s =
      ((m.discharge limit pair).run (s.start pair)).map fun x =>
        (x.1, x.2.close pair s.memo x.1) := by
  rw [attempt, StateT.run_bind, StateT.run_get, Option.pure_def, Option.bind_eq_bind,
    Option.bind_some, if_neg hknows]
  change (m.discharge limit pair).run (s.start pair) >>= _ = _
  cases (m.discharge limit pair).run (s.start pair) with
  | none => rfl
  | some _ => rfl

theorem mem_space_of_mem_challenges {answers : List StatePair} {x : StatePair}
    (hanswers : answers ∈ m.challenges pair) (hx : x ∈ answers) : x ∈ m.space := by
  rw [challenges, List.mem_append] at hanswers
  rcases hanswers with hanswers | hanswers
  · obtain ⟨move, hmove, rfl⟩ := List.mem_map.mp hanswers
    obtain ⟨q, hq, rfl⟩ := List.mem_map.mp hx
    have hmove : m.left.Moves pair.1 move.label move.state := hmove
    exact mem_space.mpr ⟨hmove.target_lt, (Automaton.mem_successors.mp hq).target_lt⟩
  · split at hanswers
    · obtain ⟨move, hmove, rfl⟩ := List.mem_map.mp hanswers
      obtain ⟨p, hp, rfl⟩ := List.mem_map.mp hx
      have hmove : m.right.Moves pair.2 move.label move.state := hmove
      exact mem_space.mpr ⟨(Automaton.mem_successors.mp hp).target_lt, hmove.target_lt⟩
    · exact absurd hanswers List.not_mem_nil

theorem discharge_endsAs (h : ∀ x ∈ m.space,
      Attempt.EndsAs m.Needs m.space depth (m.attempt limit x) (m.recordedSearch depth x)) :
    Attempt.EndsAs m.Needs m.space depth (m.discharge limit pair)
      (m.recordedObligations (m.recordedSearch depth) pair) := by
  have hchallenges : Attempt.EndsAs m.Needs m.space depth
      ((m.challenges pair).allM fun answers => answers.anyM (m.attempt limit))
      (Recorded.every (Recorded.some (m.recordedSearch depth)) (m.challenges pair)) := by
    refine Attempt.endsAs_every (fun answers hanswers => ?_) fun answers hanswers => ?_
    · refine Attempt.endsAs_some (fun x hx => ?_) fun x hx => ?_
      · exact h x (mem_space_of_mem_challenges hanswers hx)
      · exact orderly_recordedSearch depth (mem_space_of_mem_challenges hanswers hx)
    · exact Recorded.orderly_some fun x hx =>
        orderly_recordedSearch depth (mem_space_of_mem_challenges hanswers hx)
  intro s hs
  rw [recordedObligations_eq, Recorded.outcome_and, Recorded.outcome_answer, discharge]
  split
  · exact hchallenges s hs
  · rfl

/-- A search comes to an end as the one within the depth does, under every limit that allows it. -/
theorem attempt_endsAs (hpair : pair ∈ m.space) (hlimit : depth ≤ limit) :
    Attempt.EndsAs m.Needs m.space depth (m.attempt limit pair) (m.recordedSearch depth pair) := by
  induction depth generalizing pair limit with
  | zero =>
      intro s hs
      have hle := hs.sound.length_log_le
      have hroom := hs.room
      omega
  | succ depth ih =>
      obtain ⟨limit, rfl⟩ := Nat.exists_eq_add_of_le' (Nat.le_of_add_left_le hlimit)
      have hdepth := Nat.le_of_succ_le_succ hlimit
      intro s hs
      rw [recordedSearch]
      by_cases hknows : s.memo.knows pair = true
      · rw [attempt_of_knows hknows, Recorded.outcome_prove_of_knows hknows]
      · obtain ⟨hrefuted, hassumed⟩ := not_or.mp (mt Memo.knows_iff.mpr hknows)
        have hready : (s.start pair).memo.Ready m.Needs m.space depth
            ((s.start pair).opened.map OpenProof.pair) :=
          hs.assume monotone_needs hpair hrefuted hassumed
        rw [attempt_of_not_knows hknows, discharge_endsAs (fun x hx => ih hx hdepth) _ hready,
          Option.map_some, Recorded.outcome_prove_of_not_knows hknows]

end Matching

end FiniteState
