import FiniteState.Proofs.Term.Unambiguous
/-!
How deep parentheses are nested.  The parser keeps one frame for every open parenthesis, so it
stops at a text of the grammar exactly if more parentheses are open at once than it has room for.
-/

namespace FiniteState

universe u

variable {L : Type u}

inductive Paren where
  | opening
  | closing
deriving DecidableEq, Repr

namespace Paren

def ofChar? : Char → Option Paren
  | '(' => some opening
  | ')' => some closing
  | _ => none

def ofToken? : Token L → Option Paren
  | .leftParen => some opening
  | .rightParen => some closing
  | _ => none

/-- How many parentheses are open behind one more. -/
def step (depth : Nat) : Paren → Nat
  | opening => depth + 1
  | closing => depth - 1

/-- The largest number of parentheses that are open at once, if `depth` are open in front. -/
def deepest (depth : Nat) : List Paren → Nat
  | [] => depth
  | paren :: rest => max depth (deepest (step depth paren) rest)

theorem le_deepest (depth : Nat) (parens : List Paren) : depth ≤ deepest depth parens := by
  cases parens with
  | nil => exact Nat.le_refl depth
  | cons paren rest => exact Nat.le_max_left _ _

theorem deepest_append_closing (depth : Nat) (parens : List Paren) :
    deepest depth (parens ++ [closing]) = deepest depth parens := by
  induction parens generalizing depth with
  | nil => exact Nat.max_eq_left (Nat.sub_le depth 1)
  | cons paren rest ih => rw [List.cons_append, deepest, deepest, ih]

theorem deepest_pair (depth : Nat) (parens : List Paren) :
    deepest depth (opening :: (parens ++ [closing])) = deepest (depth + 1) parens := by
  rw [deepest, deepest_append_closing, step]
  exact Nat.max_eq_right (Nat.le_of_succ_le (le_deepest (depth + 1) parens))

theorem filterMap_ofChar?_eq_nil {cs : List Char} (h : ∀ c ∈ cs, c ≠ '(' ∧ c ≠ ')') :
    cs.filterMap ofChar? = [] := by
  rw [List.filterMap_eq_nil_iff]
  intro c hc
  obtain ⟨hopening, hclosing⟩ := h c hc
  unfold ofChar?
  split
  · exact absurd rfl hopening
  · exact absurd rfl hclosing
  · rfl

end Paren

/-- The largest number of open parentheses around a position of a text. -/
def Text.nesting (text : String) : Nat :=
  Paren.deepest 0 (text.toList.filterMap Paren.ofChar?)

/-- The largest number of parentheses that are open between two of the tokens. -/
def Token.nesting (ts : List (Token L)) : Nat :=
  Paren.deepest 0 (ts.filterMap Paren.ofToken?)

namespace Parser

open Paren

variable {p p' : Parser L} {token : Token L} {ts : List (Token L)} {t : Term L}

section Frames

/-- What a token does to the outer frames: a parenthesis adds or takes one, and nothing else
touches them. -/
theorem outer_of_read (h : p.read token = .ok p') :
    (token = .leftParen ∧ p.outer.length ≠ maxNesting ∧ ∃ f, p'.outer = f :: p.outer) ∨
      (token = .rightParen ∧ ∃ f, p.outer = f :: p'.outer) ∨
      (ofToken? token = none ∧ p'.outer = p.outer) := by
  obtain ⟨frame, outer, factor⟩ := p
  have hopen {f : Frame L} (h : openParen f outer = .ok p') :
      outer.length ≠ maxNesting ∧ ∃ f, p'.outer = f :: outer := by
    unfold openParen at h
    split at h
    · cases h
    · rename_i hlength
      cases h
      exact ⟨hlength, f, rfl⟩
  cases factor with
  | none =>
      replace h : readAtom ⟨frame, outer, none⟩ token = .ok p' := h
      unfold readAtom at h
      split at h
      case h_4 => exact Or.inl ⟨rfl, hopen h⟩
      all_goals
        cases h
        try exact Or.inr (Or.inr ⟨rfl, rfl⟩)
  | some t =>
      cases token with
      | leftParen => exact Or.inl ⟨rfl, hopen h⟩
      | rightParen =>
          cases outer with
          | nil => cases h
          | cons f outer =>
              cases h
              exact Or.inr (Or.inl ⟨rfl, f, rfl⟩)
      | finish => cases h
      | _ =>
          cases h
          exact Or.inr (Or.inr ⟨rfl, rfl⟩)

/-- Only a parenthesis can be too deep. -/
theorem eq_leftParen_of_shallower (h : p.read token = .error .shallower) :
    token = .leftParen ∧ p.outer.length = maxNesting := by
  obtain ⟨frame, outer, factor⟩ := p
  have hopen {f : Frame L} (h : openParen f outer = .error .shallower) :
      outer.length = maxNesting := by
    unfold openParen at h
    split at h
    · assumption
    · cases h
  cases factor with
  | none =>
      replace h : readAtom ⟨frame, outer, none⟩ token = .error .shallower := h
      unfold readAtom at h
      split at h
      case h_4 => exact ⟨rfl, hopen h⟩
      all_goals cases h
  | some t =>
      cases token with
      | leftParen => exact ⟨rfl, hopen h⟩
      | rightParen => cases outer <;> cases h
      | finish => cases outer <;> cases h
      | _ => cases h

/-- The depth behind a token that is read is the one in front of the rest. -/
theorem deepest_of_read (h : p.read token = .ok p') (ts : List (Token L)) :
    deepest p.outer.length ((token :: ts).filterMap ofToken?) =
      max p.outer.length (deepest p'.outer.length (ts.filterMap ofToken?)) := by
  rcases outer_of_read h with ⟨rfl, -, f, houter⟩ | ⟨rfl, f, houter⟩ | ⟨hnone, houter⟩
  · rw [houter]
    rfl
  · rw [houter]
    rfl
  · rw [List.filterMap_cons_none hnone, houter, Nat.max_eq_right (le_deepest _ _)]

theorem length_outer_le_of_read (h : p.read token = .ok p') (hp : p.outer.length ≤ maxNesting) :
    p'.outer.length ≤ maxNesting := by
  rcases outer_of_read h with ⟨-, hroom, f, houter⟩ | ⟨-, f, houter⟩ | ⟨-, houter⟩
  · rw [houter, List.length_cons]
    omega
  · rw [houter, List.length_cons] at hp
    omega
  · rwa [houter]

/-- Tokens that are read without an error never open more parentheses than there is room for. -/
theorem deepest_le_of_readAll (h : p.readAll ts = .ok p') (hp : p.outer.length ≤ maxNesting) :
    deepest p.outer.length (ts.filterMap ofToken?) ≤ maxNesting := by
  induction ts generalizing p with
  | nil => exact hp
  | cons token ts ih =>
      obtain ⟨q, hread, h⟩ := readAll_cons_eq_ok_iff.mp h
      rw [deepest_of_read hread]
      exact Nat.max_le.mpr ⟨hp, ih h (length_outer_le_of_read hread hp)⟩

/-- Tokens at which the parser stops for lack of room open more parentheses than there is room
for. -/
theorem lt_deepest_of_readAll (h : p.readAll ts = .error .shallower) :
    maxNesting < deepest p.outer.length (ts.filterMap ofToken?) := by
  induction ts generalizing p with
  | nil => cases h
  | cons token ts ih =>
      rcases readAll_cons_eq_error_iff.mp h with hread | ⟨q, hread, h⟩
      · obtain ⟨rfl, hlength⟩ := eq_leftParen_of_shallower hread
        have hopened := le_deepest (p.outer.length + 1) (ts.filterMap ofToken?)
        rw [hlength] at hopened
        exact Nat.lt_of_lt_of_le hopened (hlength ▸ Nat.le_max_right _ _)
      · rw [deepest_of_read hread]
        exact Nat.lt_of_lt_of_le (ih h) (Nat.le_max_right _ _)

end Frames

section Streams

variable {entries : List (Token L × Nat)}

/-- Tokens of the grammar are read to their end exactly if there is room for their parentheses. -/
theorem readAll_of_derives (h : Derives .sum ts t) :
    (Token.nesting ts ≤ maxNesting → ∃ p, begin.readAll ts = .ok p ∧ p.finish = .ok t) ∧
      (maxNesting < Token.nesting ts → begin.readAll ts = .error .shallower) := by
  rcases leads_of_derives h .empty [] rfl with herror | ⟨p, hok, f, u, rfl, hclose⟩
  · have hdeep := lt_deepest_of_readAll herror
    exact ⟨fun hfits => absurd hfits (Nat.not_le_of_gt hdeep), fun _ => herror⟩
  · have hfits := deepest_le_of_readAll hok (Nat.zero_le _)
    exact ⟨fun _ => ⟨_, hok, congrArg _ hclose⟩, fun hdeep => absurd hfits (Nat.not_le_of_gt hdeep)⟩

/-- If there is no room for a parenthesis, a stream is left at one with its line. -/
theorem run_of_shallower [Shown L] {ending : Except LexicalError Nat}
    (h : p.readAll (entries.map Prod.fst) = .error .shallower) :
    ∃ line, (.leftParen, line) ∈ entries ∧
      p.run entries ending =
        .error (.unexpected line (shown (Token.leftParen (L := L))) .shallower) := by
  obtain ⟨before, p', hbefore, rfl | ⟨token, line, later, expected, rfl, herror⟩⟩ :=
    exists_read p entries
  · cases h.symm.trans hbefore
  · rw [List.map_append, readAll_append, hbefore] at h
    rcases readAll_cons_eq_error_iff.mp h with hread | ⟨q, hread, -⟩
    · obtain ⟨rfl, -⟩ := eq_leftParen_of_shallower hread
      refine ⟨line, List.mem_append_right _ List.mem_cons_self, ?_⟩
      rw [run_append hbefore]
      exact run_cons_of_error nofun hread
    · cases herror.symm.trans hread

end Streams

end Parser

/-- A stream of tokens of the grammar is parsed if there is room for its parentheses, and otherwise
one of them is blamed. -/
theorem TokenStream.parse_of_derives [Shown L] {s : TokenStream L} {t : Term L} {ending : Nat}
    (h : Derives .sum (s.tokens.map Prod.fst) t) (hending : s.ending = .ok ending) :
    (Token.nesting (s.tokens.map Prod.fst) ≤ maxNesting → s.parse = .ok t) ∧
      (maxNesting < Token.nesting (s.tokens.map Prod.fst) → ∃ line, (.leftParen, line) ∈ s.tokens ∧
        s.parse = .error (.unexpected line (shown (Token.leftParen (L := L))) .shallower)) := by
  obtain ⟨hfits, hdeep⟩ := Parser.readAll_of_derives h
  constructor
  · intro hnesting
    obtain ⟨p, hread, hp⟩ := hfits hnesting
    rw [parse, hending, Parser.run_of_readAll hread, Parser.run, hp]
    rfl
  · exact fun hnesting => Parser.run_of_shallower (hdeep hnesting)

/-- On one line it is this line that is blamed. -/
theorem TokenStream.parse_line_of_derives [Shown L] {ts : List (Token L)} {t : Term L}
    (h : Derives .sum ts t) (line ending : Nat) :
    (Token.nesting ts ≤ maxNesting →
        (⟨ts.map fun token => (token, line), .ok ending⟩ : TokenStream L).parse = .ok t) ∧
      (maxNesting < Token.nesting ts →
        (⟨ts.map fun token => (token, line), .ok ending⟩ : TokenStream L).parse =
          .error (.unexpected line (shown (Token.leftParen (L := L))) .shallower)) := by
  have htokens : (ts.map fun token => (token, line)).map Prod.fst = ts := by
    rw [List.map_map]
    exact List.map_id ts
  rw [← htokens] at h
  obtain ⟨hfits, hdeep⟩ := parse_of_derives (s := ⟨_, .ok ending⟩) h rfl
  rw [htokens] at hfits hdeep
  refine ⟨hfits, fun hlt => ?_⟩
  obtain ⟨line', hmem, hparse⟩ := hdeep hlt
  obtain ⟨token, -, heq⟩ := List.mem_map.mp hmem
  obtain ⟨-, rfl⟩ := Prod.mk.inj heq
  exact hparse

end FiniteState
