import FiniteState.Proofs.Relation.Bookkeeping
/-!
How much a search does.  A proof is started only for a pair that is neither assumed nor refuted, and
all pairs whose proofs are under way are assumed, so they are different.  Assumptions may be
withdrawn and made again, but not without end: between two failures they only become more, and each
failure refutes a pair for good.
-/

namespace FiniteState

variable {needs : (StatePair → Prop) → StatePair → Prop} {space : List StatePair}
  {opened opened' : List OpenProof} {memo memo' : Memo} {x : Moment} {journal : List Moment}
  {pair : StatePair}

section Nesting

/-- Each of the proofs is about a pair that was not known when it was started, and what was assumed
by then is still assumed. -/
def Nested : List OpenProof → Memo → Prop
  | [], _ => True
  | x :: outer, memo =>
      ¬ x.before.knows x.pair = true ∧ x.pair :: x.before.log <:+ memo.log ∧ Nested outer x.before

theorem nested_nil : Nested [] memo :=
  trivial

theorem Nested.mono (h : Nested opened memo) (hsuffix : memo.log <:+ memo'.log) :
    Nested opened memo' := by
  cases opened with
  | nil => exact nested_nil
  | cons x outer =>
      obtain ⟨hunknown, hlog, houter⟩ := h
      exact ⟨hunknown, hlog.trans hsuffix, houter⟩

theorem Nested.mem_log (h : Nested opened memo) : ∀ y ∈ opened, y.pair ∈ memo.log := by
  induction opened generalizing memo with
  | nil => exact fun y hy => absurd hy List.not_mem_nil
  | cons x outer ih =>
      obtain ⟨-, hlog, houter⟩ := h
      intro y hy
      rcases List.mem_cons.mp hy with rfl | hy
      · exact hlog.subset List.mem_cons_self
      · exact hlog.subset (List.mem_cons_of_mem x.pair (ih houter y hy))

/-- Proofs that are under way at the same time are about different pairs. -/
theorem Nested.nodup (h : Nested opened memo) (hnodup : memo.log.Nodup) :
    (opened.map OpenProof.pair).Nodup := by
  induction opened generalizing memo with
  | nil => exact List.nodup_nil
  | cons x outer ih =>
      obtain ⟨-, hlog, houter⟩ := h
      obtain ⟨hnew, hbefore⟩ := List.nodup_cons.mp (hnodup.sublist hlog.sublist)
      rw [List.map_cons, List.nodup_cons]
      refine ⟨fun hx => ?_, ih houter hbefore⟩
      obtain ⟨y, hy, heq⟩ := List.mem_map.mp hx
      exact hnew (heq ▸ houter.mem_log y hy)

/-- There are never more proofs under way than pairs. -/
theorem Nested.length_le (h : Nested opened memo)
    (hsound : memo.Sound needs space (opened.map OpenProof.pair)) :
    opened.length ≤ space.length := by
  have hsub : opened.map OpenProof.pair ⊆ space := by
    intro p hp
    obtain ⟨y, hy, rfl⟩ := List.mem_map.mp hp
    exact hsound.mem_space _ (h.mem_log y hy)
  simpa using (List.subperm_of_subset (h.nodup hsound.nodup) hsub).length_le

theorem Follows.nested (h : Follows opened memo x) (hnested : Nested opened memo) :
    Nested x.opened x.memo := by
  cases h with
  | start hrefuted hassumed =>
      exact ⟨mt Memo.knows_iff.mp (not_or.mpr ⟨hrefuted, hassumed⟩), List.suffix_refl _, hnested⟩
  | refuted _ => exact hnested
  | assumed _ _ => exact hnested
  | succeed =>
      obtain ⟨-, hlog, houter⟩ := hnested
      exact houter.mono ((List.suffix_cons _ _).trans hlog)
  | @fail opened memo before pair =>
      obtain ⟨-, hlog, houter⟩ := hnested
      have hrestored : ((memo.withdraw before.log.length).refute pair).log = before.log :=
        Memo.log_withdraw ((List.suffix_cons _ _).trans hlog)
      exact houter.mono (hrestored.symm ▸ List.suffix_refl before.log)

theorem Chained.nested (h : Chained opened memo journal opened' memo')
    (hnested : Nested opened memo) : ∀ x ∈ journal, Nested x.opened x.memo := by
  induction h with
  | nil => exact fun x hx => absurd hx List.not_mem_nil
  | cons hfollows _ ih =>
      have hnext := hfollows.nested hnested
      exact List.forall_mem_cons.mpr ⟨hnext, ih hnext⟩

end Nesting

section Counting

def Event.isStart : Event → Bool
  | .started _ => true
  | .answered _ _ _ => false

/-- The pair whose proof has failed, if one has.  A pair that is known is answered without a
proof. -/
def Event.failed? : Event → Option StatePair
  | .started _ => none
  | .answered _ _ true => none
  | .answered pair before false => if before.knows pair then none else some pair

theorem Event.failed?_of_knows (hknows : memo.knows pair = true) :
    (answered pair memo false).failed? = none :=
  if_pos hknows

theorem Event.failed?_of_not_knows (hknows : ¬ memo.knows pair = true) :
    (answered pair memo false).failed? = some pair :=
  if_neg hknows

/-- A pair is refuted when a proof that was under way fails, so it was assumed until then. -/
theorem Follows.failed (h : Follows opened memo x) (hnested : Nested opened memo)
    (hfailed : x.event.failed? = some pair) : pair ∈ memo.log ∧ pair ∈ x.memo.refuted := by
  cases h with
  | start _ _ => cases hfailed
  | refuted hrefuted =>
      rw [Event.failed?_of_knows (Memo.knows_iff.mpr (Or.inl hrefuted))] at hfailed
      cases hfailed
  | assumed _ _ => cases hfailed
  | succeed => cases hfailed
  | fail =>
      obtain ⟨hunknown, hlog, -⟩ := hnested
      rw [Event.failed?_of_not_knows hunknown] at hfailed
      cases hfailed
      exact ⟨hlog.subset List.mem_cons_self, LookupSet.mem_insert_iff.mpr (Or.inl rfl)⟩

/-- What starts is assumed, and only a failure withdraws assumptions, of which there are never more
than pairs. -/
theorem Follows.starts_le (h : Follows opened memo x) (hnested : Nested opened memo)
    (hlength : memo.log.length ≤ space.length) :
    x.event.isStart.toNat + memo.log.length ≤
      space.length * x.event.failed?.toList.length + x.memo.log.length := by
  cases h with
  | start _ _ => simp [Event.isStart, Memo.assume, Nat.add_comm]
  | refuted _ => simp [Event.isStart]
  | assumed _ _ => simp [Event.isStart]
  | succeed => simp [Event.isStart]
  | fail =>
      obtain ⟨hunknown, -, -⟩ := hnested
      rw [Event.failed?_of_not_knows hunknown, Event.isStart, Option.toList_some,
        List.length_singleton, Bool.toNat_false]
      omega

def starts (journal : List Moment) : Nat :=
  journal.countP fun x => x.event.isStart

/-- The pairs whose proofs fail, in order. -/
def failures (journal : List Moment) : List StatePair :=
  journal.filterMap fun x => x.event.failed?

variable (hnested : Nested opened memo)
  (hmemo : memo.Sound needs space (opened.map OpenProof.pair))
  (hjournal : ∀ x ∈ journal, x.memo.Sound needs space (x.opened.map OpenProof.pair))

include hnested hmemo hjournal

/-- What fails was not refuted before, and it is refuted from then on. -/
theorem Chained.failed (h : Chained opened memo journal opened' memo') :
    ∀ x ∈ journal, ∀ pair, x.event.failed? = some pair →
      pair ∉ memo.refuted ∧ pair ∈ space ∧ pair ∈ x.memo.refuted := by
  induction h with
  | nil => exact fun x hx => absurd hx List.not_mem_nil
  | @cons opened _ memo _ x rest hfollows hrest ih =>
      obtain ⟨hx, hlater⟩ := List.forall_mem_cons.mp hjournal
      intro y hy pair hfailed
      rcases List.mem_cons.mp hy with rfl | hy
      · obtain ⟨hlog, hrefuted⟩ := hfollows.failed hnested hfailed
        exact ⟨hmemo.disjoint pair hlog, hmemo.mem_space pair hlog, hrefuted⟩
      · obtain ⟨hnew, hspace, hrefuted⟩ := ih (hfollows.nested hnested) hx hlater y hy pair hfailed
        exact ⟨mt hfollows.mem_refuted hnew, hspace, hrefuted⟩

/-- No failure is about a pair that was refuted at an earlier moment. -/
theorem Chained.pairwise_failed (h : Chained opened memo journal opened' memo') :
    journal.Pairwise fun y x => ∀ pair, x.event.failed? = some pair → pair ∉ y.memo.refuted := by
  induction h with
  | nil => exact List.Pairwise.nil
  | cons hfollows hrest ih =>
      obtain ⟨hx, hlater⟩ := List.forall_mem_cons.mp hjournal
      have hnext := hfollows.nested hnested
      refine List.pairwise_cons.mpr ⟨fun y hy pair hfailed => ?_, ih hnext hx hlater⟩
      exact (hrest.failed hnext hx hlater y hy pair hfailed).1

theorem Chained.nodup_failures (h : Chained opened memo journal opened' memo') :
    (failures journal).Nodup := by
  rw [failures, List.Nodup, List.pairwise_filterMap]
  refine (h.pairwise_failed hnested hmemo hjournal).imp_of_mem ?_
  intro y x hy _ hnew p hp q hq heq
  have hrefuted := (h.failed hnested hmemo hjournal y hy p hp).2.2
  exact hnew q hq (heq ▸ hrefuted)

/-- There are not more failures than pairs. -/
theorem Chained.length_failures_le (h : Chained opened memo journal opened' memo') :
    (failures journal).length ≤ space.length := by
  have hnodup := h.nodup_failures hnested hmemo hjournal
  refine (List.subperm_of_subset hnodup fun pair hpair => ?_).length_le
  obtain ⟨x, hx, hfailed⟩ := List.mem_filterMap.mp hpair
  exact (h.failed hnested hmemo hjournal x hx pair hfailed).2.1

/-- Between two failures no more proofs start than pairs can be assumed. -/
theorem Chained.starts_le (h : Chained opened memo journal opened' memo') :
    starts journal + memo.log.length ≤
      space.length * (failures journal).length + memo'.log.length := by
  induction h with
  | nil => simp [starts, failures]
  | @cons opened _ memo _ x rest hfollows hrest ih =>
      obtain ⟨hx, hlater⟩ := List.forall_mem_cons.mp hjournal
      have hstep := hfollows.starts_le hnested hmemo.length_log_le
      have hrun := ih (hfollows.nested hnested) hx hlater
      have hstarts : starts (x :: rest) = x.event.isStart.toNat + starts rest := by
        rw [starts, List.countP_cons, ← starts, Nat.add_comm]
        cases x.event.isStart with
        | true => rfl
        | false => rfl
      have hfailures : (failures (x :: rest)).length =
          x.event.failed?.toList.length + (failures rest).length := by
        rw [failures, List.filterMap_cons, ← failures]
        cases x.event.failed? with
        | none => exact (Nat.zero_add _).symm
        | some pair => exact Nat.add_comm _ 1
      rw [hstarts, hfailures, Nat.mul_add]
      omega

end Counting

end FiniteState
