import FiniteState.Proofs.Relation.Journal
/-!
The memory of a search at every moment.  It is sound all the time, and when a proof has failed, the
assumptions are exactly those from before it was started, while what was refuted meanwhile is kept.
-/

namespace FiniteState

universe u

variable {needs : (StatePair → Prop) → StatePair → Prop} {space : List StatePair}

/-- The memory is sound at the moment, and if a proof that was started has just failed, all
assumptions that were made for it are gone. -/
structure Moment.InOrder (needs : (StatePair → Prop) → StatePair → Prop) (space : List StatePair)
    (x : Moment) : Prop where
  sound : x.memo.Sound needs space (x.opened.map OpenProof.pair)
  restored : ∀ pair before, x.event = .answered pair before false →
    pair ∉ before.refuted → pair ∉ before.assumed →
      x.memo.assumed = before.assumed ∧ x.memo.log = before.log ∧
        pair ∈ x.memo.refuted ∧ ∀ y ∈ before.refuted, y ∈ x.memo.refuted

section Ready

variable {depth : Nat} {opened : List StatePair} {memo : Memo} {pair : StatePair}

/-- The memory is sound, and the depth is enough for all assumptions that can still be made. -/
structure Memo.Ready (needs : (StatePair → Prop) → StatePair → Prop) (space : List StatePair)
    (depth : Nat) (opened : List StatePair) (memo : Memo) : Prop where
  sound : memo.Sound needs space opened
  room : space.length < depth + memo.log.length

/-- A proof that is started takes one from the depth and adds one to the assumptions. -/
theorem Memo.Ready.assume (h : memo.Ready needs space (depth + 1) opened)
    (hmono : ∀ pair, Monotone fun related => needs related pair) (hspace : pair ∈ space)
    (hrefuted : pair ∉ memo.refuted) (hassumed : pair ∉ memo.assumed) :
    (memo.assume pair).Ready needs space depth (pair :: opened) := by
  have hlength : (memo.assume pair).log.length = memo.log.length + 1 := rfl
  have hroom := h.room
  refine ⟨h.sound.assume hmono hspace (mt (h.sound.mem_assumed pair).mpr hassumed) hrefuted, ?_⟩
  omega

theorem Inquiry.Outcome.ready {claim : Claim} {result : Bool × Memo}
    (h : Inquiry.Outcome needs space claim memo opened result)
    (hmemo : memo.Ready needs space depth opened) : result.2.Ready needs space depth opened := by
  have hlength := h.suffix.length_le
  have hroom := hmemo.room
  exact ⟨h.sound, by omega⟩

/-- A proof that is started ends as its obligations do, but if they fail, the assumptions made since
then are withdrawn. -/
theorem Inquiry.prove_of_not_mem {obligations : Inquiry} (hrefuted : pair ∉ memo.refuted)
    (hassumed : pair ∉ memo.assumed) :
    prove pair obligations memo =
      if (obligations (memo.assume pair)).1 then obligations (memo.assume pair)
      else (false, ((obligations (memo.assume pair)).2.withdraw memo.log.length).refute pair) := by
  have hrefuted : ¬ memo.refuted.contains pair = true := hrefuted
  have hassumed : ¬ memo.assumed.contains pair = true := hassumed
  rw [prove, if_neg hrefuted, if_neg hassumed]
  rcases obligations (memo.assume pair) with ⟨_ | _, after⟩ <;> rfl

end Ready

namespace Recorded

variable {α : Type u} {depth : Nat} {pair : StatePair} {r r' : Recorded} {ask : α → Recorded}
  {l : List α}

/-- With depth enough, the memory is in order at every moment, and what was assumed before is still
assumed afterwards. -/
structure Orderly (needs : (StatePair → Prop) → StatePair → Prop) (space : List StatePair)
    (depth : Nat) (r : Recorded) : Prop where
  ready : ∀ opened memo, memo.Ready needs space depth opened →
    (r.ask memo).2.Ready needs space depth opened
  suffix : ∀ opened memo, memo.Ready needs space depth opened → memo.log <:+ (r.ask memo).2.log
  inOrder : ∀ opened memo, memo.Ready needs space depth (opened.map OpenProof.pair) →
    ∀ x ∈ r.journal opened memo, x.InOrder needs space

theorem orderly_answer (b : Bool) : (answer b).Orderly needs space depth where
  ready _ _ hmemo := hmemo
  suffix _ _ _ := List.suffix_refl _
  inOrder _ _ _ _ hx := absurd hx List.not_mem_nil

theorem Orderly.and (h : r.Orderly needs space depth) (h' : r'.Orderly needs space depth) :
    (r.and r').Orderly needs space depth where
  ready opened memo hmemo := by
    rw [and_ask]
    split
    · exact h'.ready opened _ (h.ready opened memo hmemo)
    · exact h.ready opened memo hmemo
  suffix opened memo hmemo := by
    rw [and_ask]
    split
    · exact (h.suffix opened memo hmemo).trans (h'.suffix opened _ (h.ready opened memo hmemo))
    · exact h.suffix opened memo hmemo
  inOrder opened memo hmemo x hx := by
    rcases List.mem_append.mp hx with hx | hx
    · exact h.inOrder opened memo hmemo x hx
    · split at hx
      · exact h'.inOrder opened _ (h.ready _ memo hmemo) x hx
      · exact absurd hx List.not_mem_nil

theorem Orderly.or (h : r.Orderly needs space depth) (h' : r'.Orderly needs space depth) :
    (r.or r').Orderly needs space depth where
  ready opened memo hmemo := by
    dsimp only [Recorded.or]
    split
    · exact h.ready opened memo hmemo
    · exact h'.ready opened _ (h.ready opened memo hmemo)
  suffix opened memo hmemo := by
    dsimp only [Recorded.or]
    split
    · exact h.suffix opened memo hmemo
    · exact (h.suffix opened memo hmemo).trans (h'.suffix opened _ (h.ready opened memo hmemo))
  inOrder opened memo hmemo x hx := by
    rcases List.mem_append.mp hx with hx | hx
    · exact h.inOrder opened memo hmemo x hx
    · split at hx
      · exact absurd hx List.not_mem_nil
      · exact h'.inOrder opened _ (h.ready _ memo hmemo) x hx

theorem orderly_every (h : ∀ a ∈ l, (ask a).Orderly needs space depth) :
    (every ask l).Orderly needs space depth := by
  induction l with
  | nil => exact orderly_answer true
  | cons a rest ih =>
      obtain ⟨ha, hrest⟩ := List.forall_mem_cons.mp h
      exact ha.and (ih hrest)

theorem orderly_some (h : ∀ a ∈ l, (ask a).Orderly needs space depth) :
    (some ask l).Orderly needs space depth := by
  induction l with
  | nil => exact orderly_answer false
  | cons a rest ih =>
      obtain ⟨ha, hrest⟩ := List.forall_mem_cons.mp h
      exact ha.or (ih hrest)

section Prove

variable {opened : List StatePair} {memo : Memo}

/-- When the proof of a pair fails, the memory differs from the one before in what is refuted
only. -/
theorem Orderly.restored (hmono : ∀ pair, Monotone fun related => needs related pair)
    (hspace : pair ∈ space) (h : r.Orderly needs space depth)
    (hdecides : Inquiry.Decides needs space depth r.ask fun related => needs related pair)
    (hmemo : memo.Ready needs space (depth + 1) opened)
    (hrefuted : pair ∉ memo.refuted) (hassumed : pair ∉ memo.assumed)
    (hfails : (Inquiry.prove pair r.ask memo).1 = false) :
    (Inquiry.prove pair r.ask memo).2.assumed = memo.assumed ∧
      (Inquiry.prove pair r.ask memo).2.log = memo.log ∧
      pair ∈ (Inquiry.prove pair r.ask memo).2.refuted := by
  have hsound := (hdecides.prove hmono hspace memo opened hmemo.sound hmemo.room).sound
  have hopen := hmemo.assume hmono hspace hrefuted hassumed
  have hsuffix : memo.log <:+ (r.ask (memo.assume pair)).2.log :=
    (List.suffix_cons pair memo.log).trans (h.suffix _ _ hopen)
  rw [Inquiry.prove_of_not_mem hrefuted hassumed] at hfails hsound ⊢
  split at hfails
  · rename_i hyes
    exact absurd hyes (Bool.eq_false_iff.mp hfails)
  · rename_i hno
    rw [if_neg hno] at hsound ⊢
    have hlog := Memo.log_withdraw hsuffix
    refine ⟨Std.ExtTreeSet.ext_mem fun x => ?_, hlog, LookupSet.mem_insert_iff.mpr (Or.inl rfl)⟩
    rw [hsound.mem_assumed, hmemo.sound.mem_assumed]
    exact iff_of_eq (congrArg (x ∈ ·) hlog)

/-- A proof is orderly if its obligations are, and if they decide whether the pair has what it
needs. -/
theorem Orderly.prove (hmono : ∀ pair, Monotone fun related => needs related pair)
    (hspace : pair ∈ space) (h : r.Orderly needs space depth) (hgapless : r.Gapless)
    (hdecides : Inquiry.Decides needs space depth r.ask fun related => needs related pair) :
    (prove pair r).Orderly needs space (depth + 1) where
  ready opened memo hmemo :=
    (hdecides.prove hmono hspace memo opened hmemo.sound hmemo.room).ready hmemo
  suffix opened memo hmemo :=
    (hdecides.prove hmono hspace memo opened hmemo.sound hmemo.room).suffix
  inOrder opened memo hmemo x hx := by
    rcases List.mem_append.mp hx with hx | hx
    · split at hx
      · exact absurd hx List.not_mem_nil
      · rename_i hunknown
        obtain ⟨hrefuted, hassumed⟩ := not_or.mp (mt Memo.knows_iff.mpr hunknown)
        have hopen := hmemo.assume hmono hspace hrefuted hassumed
        rcases List.mem_cons.mp hx with rfl | hx
        · exact ⟨hopen.sound, nofun⟩
        · exact h.inOrder (⟨pair, memo⟩ :: opened) _ hopen x hx
    · obtain rfl := List.mem_singleton.mp hx
      refine ⟨(hdecides.prove hmono hspace memo _ hmemo.sound hmemo.room).sound, ?_⟩
      intro pair' before hevent hrefuted hassumed
      obtain ⟨rfl, rfl, hfails⟩ := Event.answered.inj hevent
      obtain ⟨hsame, hlog, hpair⟩ :=
        h.restored hmono hspace hdecides hmemo hrefuted hassumed hfails
      exact ⟨hsame, hlog, hpair, fun y hy => (hgapless.prove opened memo).mem_refuted hy⟩

end Prove

end Recorded

namespace Matching

variable {L : Type u} [Label L] {m : Matching L} {related : StatePair → Recorded}
  {pair : StatePair} {depth : Nat}

theorem orderly_recordedObligations
    (h : ∀ x ∈ m.space, (related x).Orderly m.Needs m.space depth) :
    (m.recordedObligations related pair).Orderly m.Needs m.space depth := by
  have hforth : (m.recordedForth related pair).Orderly m.Needs m.space depth := by
    refine Recorded.orderly_every fun move hmove => Recorded.orderly_some fun q hq => h _ ?_
    have hmove : m.left.Moves pair.1 move.label move.state := hmove
    exact mem_space.mpr ⟨hmove.target_lt, (Automaton.mem_successors.mp hq).target_lt⟩
  have hback : (m.recordedBack related pair).Orderly m.Needs m.space depth := by
    refine Recorded.orderly_every fun move hmove => Recorded.orderly_some fun p hp => h _ ?_
    have hmove : m.right.Moves pair.2 move.label move.state := hmove
    exact mem_space.mpr ⟨(Automaton.mem_successors.mp hp).target_lt, hmove.target_lt⟩
  refine (Recorded.orderly_answer _).and (hforth.and ?_)
  split
  · exact hback
  · exact Recorded.orderly_answer true

theorem orderly_recordedSearch (depth : Nat) (hpair : pair ∈ m.space) :
    (m.recordedSearch depth pair).Orderly m.Needs m.space depth := by
  induction depth generalizing pair with
  | zero =>
      -- The search gives up only when more pairs are assumed than there are, so never.
      exact Recorded.orderly_answer false
  | succ depth ih =>
      have hdecides : Inquiry.Decides m.Needs m.space depth (m.obligations (m.search depth) pair)
          fun related => m.Needs related pair := decides_obligations (m.searchDecides depth)
      refine Recorded.Orderly.prove monotone_needs hpair ?_ ?_ ?_
      · exact orderly_recordedObligations fun x hx => ih hx
      · exact gapless_recordedObligations fun x => m.gapless_recordedSearch depth x
      · rw [ask_recordedObligations]
        simpa only [ask_recordedSearch] using hdecides

end Matching

end FiniteState
