import FiniteState.Proofs.Relation.Memo
/-!
Inquiries that decide a claim about the related pairs.  The answer no is right for the related
pairs, the answer yes for the assumed ones.  Proofs inside each other assume one more pair each,
so an inquiry has depth enough if the depth and the number of assumptions together exceed the
number of pairs.
-/

namespace FiniteState

universe u

/-- A statement about a relation between states. -/
abbrev Claim := (StatePair → Prop) → Prop

namespace Inquiry

variable {needs : (StatePair → Prop) → StatePair → Prop} {space : List StatePair}

/-- What an inquiry leaves behind when it was made with the given memory. -/
structure Outcome (needs : (StatePair → Prop) → StatePair → Prop) (space : List StatePair)
    (claim : Claim) (memo : Memo) (opened : List StatePair) (result : Bool × Memo) : Prop where
  sound : result.2.Sound needs space opened
  suffix : memo.log <:+ result.2.log
  yes : result.1 = true → claim (· ∈ result.2.log)
  no : result.1 = false → ¬ claim (Related needs)

/-- The inquiry decides the claim whenever the depth and the number of assumptions together exceed
the number of pairs. -/
def Decides (needs : (StatePair → Prop) → StatePair → Prop) (space : List StatePair) (depth : Nat)
    (inquiry : Inquiry) (claim : Claim) : Prop :=
  ∀ (memo : Memo) (opened : List StatePair), memo.Sound needs space opened →
    space.length < depth + memo.log.length → Outcome needs space claim memo opened (inquiry memo)

variable {depth : Nat} {claim claim' : Claim} {inquiry inquiry' : Inquiry} {α : Type u}
  {ask : α → Inquiry} {claims : α → Claim} {l : List α}

theorem Decides.congr (h : Decides needs space depth inquiry claim)
    (hclaim : ∀ related, claim related ↔ claim' related) :
    Decides needs space depth inquiry claim' := by
  have heq : claim = claim' := funext fun related => propext (hclaim related)
  exact heq ▸ h

theorem decides_answer (b : Bool) : Decides needs space depth (answer b) fun _ => b = true :=
  fun _ _ hmemo _ => ⟨hmemo, List.suffix_refl _, id, Bool.eq_false_iff.mp⟩

theorem Decides.and (h : Decides needs space depth inquiry claim) (hmono : Monotone claim)
    (h' : Decides needs space depth inquiry' claim') :
    Decides needs space depth (inquiry.and inquiry') fun related =>
      claim related ∧ claim' related := by
  intro memo opened hmemo hdepth
  have hfirst := h memo opened hmemo hdepth
  unfold Inquiry.and
  split
  · rename_i after heq
    rw [heq] at hfirst
    have hlength : memo.log.length ≤ after.log.length := hfirst.suffix.length_le
    have hsecond := h' after opened hfirst.sound (by omega)
    refine ⟨hsecond.sound, hfirst.suffix.trans hsecond.suffix, fun hyes => ?_, fun hno hclaim => ?_⟩
    · exact ⟨hmono (fun x hx => hsecond.suffix.subset hx) (hfirst.yes rfl), hsecond.yes hyes⟩
    · exact hsecond.no hno hclaim.2
  · rename_i after heq
    rw [heq] at hfirst
    exact ⟨hfirst.sound, hfirst.suffix, nofun, fun _ hclaim => hfirst.no rfl hclaim.1⟩

theorem decides_every (claims : α → Claim)
    (h : ∀ a ∈ l, Decides needs space depth (ask a) (claims a))
    (hmono : ∀ a ∈ l, Monotone (claims a)) :
    Decides needs space depth (every ask l) fun related => ∀ a ∈ l, claims a related := by
  induction l with
  | nil =>
      intro memo opened hmemo _
      exact ⟨hmemo, List.suffix_refl _, fun _ _ ha => absurd ha List.not_mem_nil, nofun⟩
  | cons a l ih =>
      obtain ⟨ha, hl⟩ := List.forall_mem_cons.mp h
      obtain ⟨hmonoa, hmonol⟩ := List.forall_mem_cons.mp hmono
      have hevery : every ask (a :: l) = (ask a).and (every ask l) := by
        funext memo
        rw [every, Inquiry.and]
      rw [hevery]
      exact (ha.and hmonoa (ih hl hmonol)).congr fun related =>
        (List.forall_mem_cons (p := fun a => claims a related)).symm

theorem decides_some (h : ∀ a ∈ l, Decides needs space depth (ask a) (claims a)) :
    Decides needs space depth (some ask l) fun related => ∃ a ∈ l, claims a related := by
  induction l with
  | nil =>
      intro memo opened hmemo _
      exact ⟨hmemo, List.suffix_refl _, nofun, fun _ ⟨_, ha, _⟩ => absurd ha List.not_mem_nil⟩
  | cons a l ih =>
      obtain ⟨ha, hl⟩ := List.forall_mem_cons.mp h
      intro memo opened hmemo hdepth
      have hfirst := ha memo opened hmemo hdepth
      rw [some]
      split
      · rename_i after heq
        rw [heq] at hfirst
        exact ⟨hfirst.sound, hfirst.suffix, fun _ => ⟨a, List.mem_cons_self, hfirst.yes rfl⟩, nofun⟩
      · rename_i after heq
        rw [heq] at hfirst
        have hlength : memo.log.length ≤ after.log.length := hfirst.suffix.length_le
        have hrest := ih hl after opened hfirst.sound (by omega)
        refine ⟨hrest.sound, hfirst.suffix.trans hrest.suffix, fun hyes => ?_, fun hno hclaim => ?_⟩
        · obtain ⟨b, hb, hclaim⟩ := hrest.yes hyes
          exact ⟨b, List.mem_cons_of_mem a hb, hclaim⟩
        · obtain ⟨b, hb, hclaim⟩ := hclaim
          rcases List.mem_cons.mp hb with rfl | hb
          · exact hfirst.no rfl hclaim
          · exact hrest.no hno ⟨b, hb, hclaim⟩

/-- Proving a pair decides whether it is related, if its obligations decide whether it has what it
needs with one proof less inside. -/
theorem Decides.prove {pair : StatePair}
    (hmono : ∀ pair, Monotone fun related => needs related pair) (hspace : pair ∈ space)
    (h : Decides needs space depth inquiry fun related => needs related pair) :
    Decides needs space (depth + 1) (prove pair inquiry) fun related => related pair := by
  intro memo opened hmemo hdepth
  unfold Inquiry.prove
  by_cases hrefuted : memo.refuted.contains pair = true
  · rw [if_pos hrefuted]
    exact ⟨hmemo, List.suffix_refl _, nofun, fun _ => hmemo.unrelated pair hrefuted⟩
  · by_cases hassumed : memo.assumed.contains pair = true
    · rw [if_neg hrefuted, if_pos hassumed]
      exact ⟨hmemo, List.suffix_refl _, fun _ => (hmemo.mem_assumed pair).mp hassumed, nofun⟩
    · rw [if_neg hrefuted, if_neg hassumed]
      have hlog : pair ∉ memo.log := fun hmem => hassumed ((hmemo.mem_assumed pair).mpr hmem)
      have hopen := hmemo.assume hmono hspace hlog hrefuted
      have hlength : (memo.assume pair).log.length = memo.log.length + 1 := rfl
      have hinner := h (memo.assume pair) (pair :: opened) hopen (by omega)
      have hgrown : memo.log <:+ (memo.assume pair).log := List.suffix_cons pair memo.log
      split
      · rename_i after heq
        rw [heq] at hinner
        refine ⟨hinner.sound.close (hinner.yes rfl), hgrown.trans hinner.suffix, fun _ => ?_, nofun⟩
        exact hinner.suffix.subset List.mem_cons_self
      · rename_i after heq
        rw [heq] at hinner
        have hunrelated : ¬ Related needs pair := fun hrelated =>
          hinner.no rfl (hrelated.needs_related hmono)
        have hsuffix := hgrown.trans hinner.suffix
        refine ⟨hmemo.fail hinner.sound hsuffix hlog hunrelated, ?_, nofun, fun _ => hunrelated⟩
        exact (Memo.log_withdraw hsuffix).symm ▸ List.suffix_refl memo.log

/-- With more assumptions than pairs there would be no memory at all. -/
theorem decides_zero (inquiry : Inquiry) (claim : Claim) : Decides needs space 0 inquiry claim := by
  intro memo opened hmemo hdepth
  have hle := hmemo.length_log_le
  omega

/-- From a memory without open proofs, the answer is yes exactly if the related pairs satisfy the
claim. -/
theorem Decides.answer_iff (h : Decides needs space (space.length + 1) inquiry claim)
    (hmono : Monotone claim) {memo : Memo} (hmemo : memo.Sound needs space []) :
    (inquiry memo).1 = true ↔ claim (Related needs) := by
  have hresult := h memo [] hmemo (by omega)
  constructor
  · exact fun hyes => hmono (fun x hx => hresult.sound.related_of_mem_log hx) (hresult.yes hyes)
  · intro hclaim
    by_contra hno
    exact hresult.no (Bool.eq_false_iff.mpr hno) hclaim

end Inquiry

end FiniteState
