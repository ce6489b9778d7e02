import FiniteState.Relation.Memo
import Mathlib.Data.List.Nodup
import Mathlib.Data.List.Perm.Subperm
import Mathlib.Order.Monotone.Defs
/-!
Why a search with assumptions is exact.  The related pairs are described by what a pair needs of
the other ones, and they are the largest relation that has what it needs.  A negative answer never
depends on an assumption that is wrong, so refuted pairs stay refuted.  A positive answer may
depend on pairs whose proofs are still open, but every other assumed pair has what it needs among
the assumed ones; so once no proof is open, all assumed pairs are related.
-/

namespace FiniteState

/-- The pairs that are related if a pair needs `needs related` to hold of the related pairs: those
in some relation that has what it needs. -/
def Related (needs : (StatePair → Prop) → StatePair → Prop) (pair : StatePair) : Prop :=
  ∃ related : StatePair → Prop, (∀ x, related x → needs related x) ∧ related pair

variable {needs : (StatePair → Prop) → StatePair → Prop} {space : List StatePair}

theorem Related.needs_related (hmono : ∀ pair, Monotone fun related => needs related pair)
    {pair : StatePair} (h : Related needs pair) : needs (Related needs) pair := by
  obtain ⟨related, hrelated, hpair⟩ := h
  exact hmono pair (fun x hx => ⟨related, hrelated, hx⟩) (hrelated pair hpair)

namespace Memo

/-- What holds of the memory at every time, while the proofs of the pairs `opened` are under way.
All pairs are taken from `space`. -/
structure Sound (needs : (StatePair → Prop) → StatePair → Prop) (space : List StatePair)
    (memo : Memo) (opened : List StatePair) : Prop where
  mem_assumed : ∀ x, x ∈ memo.assumed ↔ x ∈ memo.log
  nodup : memo.log.Nodup
  mem_space : ∀ x ∈ memo.log, x ∈ space
  justified : ∀ x ∈ memo.log, x ∉ opened → needs (· ∈ memo.log) x
  unrelated : ∀ x ∈ memo.refuted, ¬ Related needs x
  disjoint : ∀ x ∈ memo.log, x ∉ memo.refuted

variable {memo after : Memo} {opened : List StatePair} {pair : StatePair}

theorem knows_iff : memo.knows pair = true ↔ pair ∈ memo.refuted ∨ pair ∈ memo.assumed :=
  Bool.or_eq_true_iff

theorem sound_empty : Memo.empty.Sound needs space [] where
  mem_assumed := by simp [Memo.empty]
  nodup := List.nodup_nil
  mem_space := by simp [Memo.empty]
  justified := by simp [Memo.empty]
  unrelated := by simp [Memo.empty]
  disjoint := by simp [Memo.empty]

/-- As no pair is assumed twice, there are not more assumptions than pairs. -/
theorem Sound.length_log_le (h : memo.Sound needs space opened) : memo.log.length ≤ space.length :=
  (List.subperm_of_subset h.nodup h.mem_space).length_le

/-- When no proof is open, the assumed pairs are related. -/
theorem Sound.related_of_mem_log (h : memo.Sound needs space []) (hpair : pair ∈ memo.log) :
    Related needs pair :=
  ⟨(· ∈ memo.log), fun x hx => h.justified x hx List.not_mem_nil, hpair⟩

theorem Sound.assume (h : memo.Sound needs space opened)
    (hmono : ∀ pair, Monotone fun related => needs related pair) (hspace : pair ∈ space)
    (hassumed : pair ∉ memo.log) (hrefuted : pair ∉ memo.refuted) :
    (memo.assume pair).Sound needs space (pair :: opened) where
  mem_assumed x := by
    rw [Memo.assume, LookupSet.mem_insert_iff, h.mem_assumed, List.mem_cons]
  nodup := List.nodup_cons.mpr ⟨hassumed, h.nodup⟩
  mem_space x hx := by
    rcases List.mem_cons.mp hx with rfl | hx
    · exact hspace
    · exact h.mem_space x hx
  justified x hx hopened := by
    obtain ⟨hne, hopened⟩ := not_or.mp (mt List.mem_cons.mpr hopened)
    have hlog := (List.mem_cons.mp hx).resolve_left hne
    exact hmono x (fun y hy => List.mem_cons_of_mem pair hy) (h.justified x hlog hopened)
  unrelated := h.unrelated
  disjoint x hx := by
    rcases List.mem_cons.mp hx with rfl | hx
    · exact hrefuted
    · exact h.disjoint x hx

/-- A proof that succeeds is not open any more. -/
theorem Sound.close (h : memo.Sound needs space (pair :: opened))
    (hneeds : needs (· ∈ memo.log) pair) :
    memo.Sound needs space opened where
  mem_assumed := h.mem_assumed
  nodup := h.nodup
  mem_space := h.mem_space
  justified x hx hopened := by
    by_cases hpair : x = pair
    · rwa [hpair]
    · exact h.justified x hx fun hmem => (List.mem_cons.mp hmem).elim hpair hopened
  unrelated := h.unrelated
  disjoint := h.disjoint

/-- Withdrawing what was assumed since some time restores the assumptions of that time. -/
theorem log_withdraw (hsuffix : memo.log <:+ after.log) :
    (after.withdraw memo.log.length).log = memo.log := by
  obtain ⟨later, hlater⟩ := hsuffix
  rw [withdraw, ← hlater, List.length_append, Nat.add_sub_cancel, List.drop_left]

theorem mem_assumed_withdraw (hmem : ∀ x, x ∈ after.assumed ↔ x ∈ after.log)
    (hnodup : after.log.Nodup) (hsuffix : memo.log <:+ after.log) (x : StatePair) :
    x ∈ (after.withdraw memo.log.length).assumed ↔ x ∈ memo.log := by
  obtain ⟨later, hlater⟩ := hsuffix
  rw [withdraw, LookupSet.mem_eraseAll, hmem, ← hlater, List.length_append, Nat.add_sub_cancel,
    List.take_left, List.mem_append]
  rw [← hlater] at hnodup
  constructor
  · exact fun h => h.1.resolve_left h.2
  · exact fun h => ⟨Or.inr h, fun hlater => List.disjoint_of_nodup_append hnodup hlater h⟩

/-- After a failed proof the assumptions are those from before, and its pair is refuted. -/
theorem Sound.fail {openedAfter : List StatePair} (h : memo.Sound needs space opened)
    (hafter : after.Sound needs space openedAfter) (hsuffix : memo.log <:+ after.log)
    (hassumed : pair ∉ memo.log) (hunrelated : ¬ Related needs pair) :
    ((after.withdraw memo.log.length).refute pair).Sound needs space opened := by
  have hlog : ((after.withdraw memo.log.length).refute pair).log = memo.log := log_withdraw hsuffix
  constructor
  · intro x
    rw [hlog]
    exact mem_assumed_withdraw hafter.mem_assumed hafter.nodup hsuffix x
  · rw [hlog]
    exact h.nodup
  · rw [hlog]
    exact h.mem_space
  · rw [hlog]
    exact h.justified
  · intro x hx
    rcases LookupSet.mem_insert_iff.mp hx with rfl | hx
    · exact hunrelated
    · exact hafter.unrelated x hx
  · rw [hlog]
    intro x hx hrefuted
    rcases LookupSet.mem_insert_iff.mp hrefuted with rfl | hrefuted
    · exact hassumed hx
    · exact hafter.disjoint x (hsuffix.subset hx) hrefuted

end Memo

end FiniteState
