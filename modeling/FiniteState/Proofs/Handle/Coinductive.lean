import FiniteState.Handle.Relation
import FiniteState.Proofs.Handle.Basic
import FiniteState.Proofs.Relation.Matching
/-!
Questions that are asked one after the other.  What is remembered between two questions is sound
whatever was asked, because no proof is open then, so every answer is as good as the first one.
-/

namespace FiniteState

universe u

variable {L : Type u} [Label L]

/-- What can be asked: whether two states are related, or whether two sets of states are. -/
inductive Question where
  | states (s t : Handle)
  | sets (s t : HandleSet)

namespace Coinductive

variable {r : Coinductive L} {question : Inquiry} {claim : Claim}

def after (r : Coinductive L) : List Question → Coinductive L
  | [] => r
  | .states s t :: rest => (r.equivalent s t).2.after rest
  | .sets s t :: rest => (r.equivalentSets s t).2.after rest

/-- What is true between two questions: the memory is sound, and the automata that are matched
have the states of those that are asked about. -/
structure Sound (r : Coinductive L) : Prop where
  memo : r.memo.Sound r.matching.Needs r.matching.space []
  size_left : r.matching.left.size = r.left.automaton.size
  size_right : r.matching.right.size = r.right.automaton.size

/-- The relation that the questions are about.  It leaves out states of other automata. -/
def Relates (r : Coinductive L) (related : StatePair → Prop) (s t : Handle) : Prop :=
  r.left.contains s = true ∧ r.right.contains t = true ∧ related (s.index, t.index)

/-- How sets of states are related: each state of the one set to some state of the other, on both
sides if the relation is two-sided. -/
def RelatesSets (r : Coinductive L) (related : StatePair → Prop) (s t : HandleSet) : Prop :=
  (∀ p ∈ s, ∃ q ∈ t, r.Relates related p q) ∧
    (r.matching.twoSided = true → ∀ q ∈ t, ∃ p ∈ s, r.Relates related p q)

/-- A question that decides a claim about the related pairs. -/
abbrev Decides (r : Coinductive L) (question : Inquiry) (claim : Claim) : Prop :=
  Inquiry.Decides r.matching.Needs r.matching.space (r.matching.space.length + 1) question claim

section Questions

theorem monotone_relates (s t : Handle) : Monotone fun related => r.Relates related s t :=
  fun _ _ hle h => ⟨h.1, h.2.1, hle _ h.2.2⟩

theorem monotone_exists_relates {S : HandleSet} (pairWith : Handle → Handle × Handle) :
    Monotone fun related =>
      ∃ p ∈ S, r.Relates related (pairWith p).1 (pairWith p).2 := by
  intro related related' hle h
  rcases h with ⟨p, hp, h⟩
  exact ⟨p, hp, monotone_relates _ _ hle h⟩

/-- Handles of the two automata name a pair that can be matched. -/
theorem Sound.mem_space (h : r.Sound) {s t : Handle}
    (hcontains : (r.left.contains s && r.right.contains t) = true) :
    (s.index, t.index) ∈ r.matching.space := by
  obtain ⟨hs, ht⟩ := Bool.and_eq_true_iff.mp hcontains
  rw [Matching.mem_space, h.size_left, h.size_right]
  exact ⟨(Tagged.contains_iff.mp hs).2, (Tagged.contains_iff.mp ht).2⟩

theorem Sound.decides_ask (h : r.Sound) (s t : Handle) :
    r.Decides (r.ask s t) fun related => r.Relates related s t := by
  unfold ask
  split
  · rename_i hcontains
    obtain ⟨hs, ht⟩ := Bool.and_eq_true_iff.mp hcontains
    exact (Matching.decides_related (h.mem_space hcontains)).congr fun related =>
      ⟨fun hrelated => ⟨hs, ht, hrelated⟩, fun hrelates => hrelates.2.2⟩
  · rename_i hcontains
    refine (Inquiry.decides_answer false).congr fun related => iff_of_false (by simp) ?_
    exact fun hrelates => hcontains (Bool.and_eq_true_iff.mpr ⟨hrelates.1, hrelates.2.1⟩)

theorem monotone_relatesSets (s t : HandleSet) :
    Monotone fun related => r.RelatesSets related s t := by
  intro related related' hle h
  refine ⟨fun p hp => ?_, fun htwo q hq => ?_⟩
  · exact monotone_exists_relates (fun q => (p, q)) hle (h.1 p hp)
  · exact monotone_exists_relates (fun p => (p, q)) hle (h.2 htwo q hq)

/-- The initial states of two automata are related as handles exactly if they are related as
states. -/
theorem relates_initials_iff {related : StatePair → Prop} {p q : Nat}
    (hp : r.left.automaton.isInitial p = true) (hq : r.right.automaton.isInitial q = true) :
    r.Relates related (r.left.handle p) (r.right.handle q) ↔ related (p, q) := by
  have hleft := Tagged.contains_handle.mpr (Automaton.lt_size_of_isInitial hp)
  have hright := Tagged.contains_handle.mpr (Automaton.lt_size_of_isInitial hq)
  exact ⟨fun h => h.2.2, fun h => ⟨hleft, hright, h⟩⟩

theorem relatesSets_initials_iff {related : StatePair → Prop} :
    r.RelatesSets related r.left.initials r.right.initials ↔
      InitialsAnswered r.left.automaton r.right.automaton (fun p q => related (p, q)) ∧
      (r.matching.twoSided = true →
        InitialsAnswered r.right.automaton r.left.automaton fun q p => related (p, q)) := by
  simp only [RelatesSets, Tagged.mem_initials]
  constructor
  · rintro ⟨hforth, hback⟩
    constructor
    · intro p hp
      obtain ⟨_, ⟨q, hq, rfl⟩, hpq⟩ := hforth _ ⟨p, hp, rfl⟩
      exact ⟨q, hq, (relates_initials_iff hp hq).mp hpq⟩
    · intro htwo q hq
      obtain ⟨_, ⟨p, hp, rfl⟩, hpq⟩ := hback htwo _ ⟨q, hq, rfl⟩
      exact ⟨p, hp, (relates_initials_iff hp hq).mp hpq⟩
  · rintro ⟨hforth, hback⟩
    constructor
    · rintro _ ⟨p, hp, rfl⟩
      obtain ⟨q, hq, hpq⟩ := hforth p hp
      exact ⟨_, ⟨q, hq, rfl⟩, (relates_initials_iff hp hq).mpr hpq⟩
    · rintro htwo _ ⟨q, hq, rfl⟩
      obtain ⟨p, hp, hpq⟩ := hback htwo q hq
      exact ⟨_, ⟨p, hp, rfl⟩, (relates_initials_iff hp hq).mpr hpq⟩

theorem Sound.decides_askSets (h : r.Sound) (s t : HandleSet) :
    r.Decides (r.askSets s t) fun related => r.RelatesSets related s t := by
  have hforth : r.Decides (Inquiry.every (fun p => Inquiry.some (fun q => r.ask p q) t.toList)
      s.toList) fun related => ∀ p ∈ s, ∃ q ∈ t, r.Relates related p q :=
    Inquiry.decides_every (fun p related => ∃ q ∈ t, r.Relates related p q)
      (fun p _ => Inquiry.decides_some fun q _ => h.decides_ask p q)
      fun p _ => monotone_exists_relates (fun q => (p, q))
  have hback : r.Decides (if r.matching.twoSided then
      Inquiry.every (fun q => Inquiry.some (fun p => r.ask p q) s.toList) t.toList
      else Inquiry.answer true) fun related =>
        r.matching.twoSided = true → ∀ q ∈ t, ∃ p ∈ s, r.Relates related p q := by
    split
    · rename_i htwo
      refine (Inquiry.decides_every (fun q related => ∃ p ∈ s, r.Relates related p q)
        (fun q _ => Inquiry.decides_some fun p _ => h.decides_ask p q)
        fun q _ => monotone_exists_relates (fun p => (p, q))).congr fun related => ?_
      exact (imp_iff_right htwo).symm
    · rename_i htwo
      exact (Inquiry.decides_answer true).congr fun _ => iff_of_true rfl fun h => absurd h htwo
  refine hforth.and ?_ hback
  intro related related' hle hclaim p hp
  exact monotone_exists_relates (fun q => (p, q)) hle (hclaim p hp)

end Questions

section History

/-- A question leaves the memory sound. -/
theorem Sound.pose (h : r.Sound) (hquestion : r.Decides question claim) :
    (r.pose question).2.Sound :=
  ⟨(hquestion r.memo [] h.memo (by omega)).sound, h.size_left, h.size_right⟩

/-- The answer to a question is yes exactly if the related pairs satisfy the claim. -/
theorem Sound.answer_iff (h : r.Sound) (hquestion : r.Decides question claim)
    (hmono : Monotone claim) :
    (r.pose question).1 = true ↔ claim (Related r.matching.Needs) :=
  hquestion.answer_iff hmono h.memo

/-- Whatever was asked before, the memory is sound, and the questions are about the same
automata. -/
theorem Sound.after (h : r.Sound) (history : List Question) :
    (r.after history).Sound ∧ (r.after history).left = r.left ∧
      (r.after history).right = r.right ∧ (r.after history).matching = r.matching := by
  induction history generalizing r with
  | nil => exact ⟨h, rfl, rfl, rfl⟩
  | cons question rest ih =>
      cases question with
      | states s t => exact ih (h.pose (h.decides_ask s t))
      | sets s t => exact ih (h.pose (h.decides_askSets s t))

/-- Whatever was asked before, the answers are those of the largest relation that has what it
needs. -/
theorem Sound.decided_after (h : r.Sound) (history : List Question) :
    (∀ s t, ((r.after history).equivalent s t).1 = true ↔
      r.Relates (Related r.matching.Needs) s t) ∧
    ∀ S T, ((r.after history).equivalentSets S T).1 = true ↔
      r.RelatesSets (Related r.matching.Needs) S T := by
  obtain ⟨hsound, hleft, hright, hmatching⟩ := h.after history
  generalize r.after history = r' at *
  have hrelates (s t : Handle) : r'.Relates (Related r'.matching.Needs) s t ↔
      r.Relates (Related r.matching.Needs) s t := by
    rw [Relates, hleft, hright, hmatching]
    exact Iff.rfl
  constructor
  · intro s t
    rw [← hrelates]
    exact hsound.answer_iff (hsound.decides_ask s t) (monotone_relates s t)
  · intro S T
    refine (hsound.answer_iff (hsound.decides_askSets S T) (monotone_relatesSets S T)).trans ?_
    simp only [RelatesSets, hrelates]
    rw [hmatching]

/-- Whatever was asked before, the initial states are compared by the largest relation that has what
it needs. -/
theorem Sound.areEquivalent_after_iff (h : r.Sound) {related : Nat → Nat → Prop}
    (hrelated : ∀ p q, Related r.matching.Needs (p, q) ↔ related p q) (history : List Question) :
    (r.after history).areEquivalent.1 = true ↔
      InitialsAnswered r.left.automaton r.right.automaton related ∧
      (r.matching.twoSided = true →
        InitialsAnswered r.right.automaton r.left.automaton fun q p => related p q) := by
  obtain ⟨-, hleft, hright, -⟩ := h.after history
  rw [areEquivalent, hleft, hright, (h.decided_after history).2, relatesSets_initials_iff]
  simp only [hrelated]

end History

end Coinductive

theorem Coinductive.sound_bisimulation (left right : Tagged L) : (bisimulation left right).Sound :=
  ⟨Memo.sound_empty, rfl, rfl⟩

def BisimilarHandles (left right : Tagged L) (s t : Handle) : Prop :=
  left.contains s = true ∧ right.contains t = true ∧
    Bisimilar left.automaton right.automaton s.index t.index

/-- Bisimulation is decided exactly, whatever was asked before. -/
theorem bisimulation_decided_after_any_history (left right : Tagged L) (history : List Question) :
    (∀ s t, (((Coinductive.bisimulation left right).after history).equivalent s t).1 = true ↔
      BisimilarHandles left right s t) ∧
    ∀ S T : HandleSet,
      (((Coinductive.bisimulation left right).after history).equivalentSets S T).1 = true ↔
        (∀ s ∈ S, ∃ t ∈ T, BisimilarHandles left right s t) ∧
          ∀ t ∈ T, ∃ s ∈ S, BisimilarHandles left right s t := by
  obtain ⟨hsound, hleft, hright, hmatching⟩ :=
    (Coinductive.sound_bisimulation left right).after history
  generalize (Coinductive.bisimulation left right).after history = r at *
  have hrelates (s t : Handle) :
      r.Relates (Related r.matching.Needs) s t ↔ BisimilarHandles left right s t := by
    rw [Coinductive.Relates, hleft, hright, hmatching]
    exact and_congr_right' (and_congr_right' Matching.related_iff_bisimilar)
  constructor
  · intro s t
    rw [← hrelates]
    exact hsound.answer_iff (hsound.decides_ask s t) (Coinductive.monotone_relates s t)
  · intro S T
    have htwo : r.matching.twoSided = true := congrArg Matching.twoSided hmatching
    have hanswer := hsound.answer_iff (hsound.decides_askSets S T)
      (Coinductive.monotone_relatesSets S T)
    simp only [Coinductive.RelatesSets, hrelates, htwo, true_implies] at hanswer
    exact hanswer

end FiniteState
