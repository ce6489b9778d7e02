import FiniteState.Proofs.Term.Nesting
/-!
The sentences of the grammar.  Read as a grammar alone, the rules leave it open whether a number
behind a factor repeats it or starts the next one.  Reading it as a repetition wherever that is
possible loses no sentence, so the sentences are what the parser can read to the end; and whatever
the parser has read without an error can be completed to a sentence.
-/

namespace FiniteState

universe u

variable {L : Type u}

/-- What may stand behind an atom to repeat it. -/
def Token.Repeats : Token L → Prop
  | .star => True
  | .caret => True
  | .number _ => True
  | _ => False

/-- The tokens conform to a level of the grammar, in whatever way. -/
inductive Grammatical : Level → List (Token L) → Prop where
  | letter (l : L) : Grammatical .atom [.letter l]
  | zero : Grammatical .atom [.number 0]
  | one : Grammatical .atom [.number 1]
  | parens {ts : List (Token L)} :
      Grammatical .sum ts → Grammatical .atom (.leftParen :: ts ++ [.rightParen])
  | ofAtom {ts : List (Token L)} : Grammatical .atom ts → Grammatical .factor ts
  | repetition {ts : List (Token L)} {token : Token L} :
      Grammatical .factor ts → token.Repeats → Grammatical .factor (ts ++ [token])
  | ofFactor {ts : List (Token L)} : Grammatical .factor ts → Grammatical .product ts
  | concatenation {ts us : List (Token L)} :
      Grammatical .product ts → Grammatical .factor us → Grammatical .product (ts ++ us)
  | ofProduct {ts : List (Token L)} : Grammatical .product ts → Grammatical .mixed ts
  | interleaving {ts us : List (Token L)} (op : Interleaving) :
      Grammatical .mixed ts → Grammatical .product us → Grammatical .mixed (ts ++ [op.token] ++ us)
  | ofMixed {ts : List (Token L)} : Grammatical .mixed ts → Grammatical .sum ts
  | union {ts us : List (Token L)} :
      Grammatical .sum ts → Grammatical .mixed us → Grammatical .sum (ts ++ [.plus] ++ us)

theorem Grammatical.ne_nil {level : Level} {ts : List (Token L)} (h : Grammatical level ts) :
    ts ≠ [] := by
  induction h <;> simp_all

section Numbers

variable {level : Level} {ts us : List (Token L)} {s t : Term L} {token : Token L}

theorem Derives.repetition (h : Derives .factor ts t) (htoken : token.Repeats) :
    ∃ u, Derives .factor (ts ++ [token]) u := by
  cases token with
  | star => exact ⟨_, h.star⟩
  | caret => exact ⟨_, h.plus⟩
  | number n => exact ⟨_, h.power n⟩
  | _ => exact absurd htoken id

/-- What repeats a factor may stand behind a product, whose last factor it repeats. -/
theorem Derives.repetition_product (h : Derives .product ts t) (htoken : token.Repeats) :
    ∃ u, Derives .product (ts ++ [token]) u := by
  cases h with
  | ofFactor ht =>
      obtain ⟨u, hu⟩ := ht.repetition htoken
      exact ⟨u, .ofFactor hu⟩
  | @concatenation ts us s _ hs ht hnumber =>
      obtain ⟨u, hu⟩ := ht.repetition htoken
      obtain ⟨first, rest, rfl, -⟩ := ht.exists_cons
      rw [List.append_assoc]
      exact ⟨_, hs.concatenation hu hnumber⟩

/-- A factor that starts with a number is read as repetitions of the factor in front of it. -/
theorem Derives.append_numbered (hs : Derives .product ts s) (h : Grammatical level us)
    (hlevel : level = .atom ∨ level = .factor) {n : Nat} (hnumber : us.head? = some (.number n)) :
    ∃ u, Derives .product (ts ++ us) u := by
  induction h with
  | letter l => cases hnumber
  | zero => exact hs.repetition_product trivial
  | one => exact hs.repetition_product trivial
  | parens _ _ => cases hnumber
  | ofAtom _ ih => exact ih (Or.inl rfl) hnumber
  | @repetition us token hus htoken ih =>
      obtain ⟨first, rest, rfl⟩ := List.exists_cons_of_ne_nil hus.ne_nil
      obtain ⟨u, hu⟩ := ih (Or.inr rfl) hnumber
      rw [← List.append_assoc]
      exact hu.repetition_product htoken
  | _ => simp at hlevel

theorem Derives.grammatical (h : Derives level ts t) : Grammatical level ts := by
  induction h with
  | letter l => exact .letter l
  | zero => exact .zero
  | one => exact .one
  | parens _ ih => exact .parens ih
  | ofAtom _ ih => exact .ofAtom ih
  | star _ ih => exact .repetition ih trivial
  | plus _ ih => exact .repetition ih trivial
  | power _ _ ih => exact .repetition ih trivial
  | ofFactor _ ih => exact .ofFactor ih
  | concatenation _ _ _ ihs iht => exact .concatenation ihs iht
  | ofProduct _ ih => exact .ofProduct ih
  | mix _ _ ihs iht => exact .interleaving .mix ihs iht
  | shuffle _ _ ihs iht => exact .interleaving .shuffle ihs iht
  | ofMixed _ ih => exact .ofMixed ih
  | union _ _ ihs iht => exact .union ihs iht

/-- Tokens conform to the grammar exactly if they stand for a term. -/
theorem grammatical_iff_derives : Grammatical level ts ↔ ∃ t, Derives level ts t := by
  refine ⟨fun h => ?_, fun ⟨t, h⟩ => h.grammatical⟩
  induction h with
  | letter l => exact ⟨_, .letter l⟩
  | zero => exact ⟨_, .zero⟩
  | one => exact ⟨_, .one⟩
  | parens _ ih => exact ih.imp fun _ ht => .parens ht
  | ofAtom _ ih => exact ih.imp fun _ ht => .ofAtom ht
  | repetition _ htoken ih => exact ih.elim fun _ ht => ht.repetition htoken
  | ofFactor _ ih => exact ih.imp fun _ ht => .ofFactor ht
  | @concatenation ts us _ hus ihs iht =>
      obtain ⟨s, hs⟩ := ihs
      obtain ⟨t, ht⟩ := iht
      by_cases hnumber : ∃ n, us.head? = some (.number n)
      · -- The readings part here: the factors in front take the number, and the tokens stay.
        exact hnumber.elim fun _ hhead => hs.append_numbered hus (Or.inr rfl) hhead
      · exact ⟨_, hs.concatenation ht (not_exists.mp hnumber)⟩
  | ofProduct _ ih => exact ih.imp fun _ ht => .ofProduct ht
  | interleaving op _ _ ihs iht =>
      obtain ⟨s, hs⟩ := ihs
      obtain ⟨t, ht⟩ := iht
      exact ⟨_, hs.interleave op ht⟩
  | ofMixed _ ih => exact ih.imp fun _ ht => .ofMixed ht
  | union _ _ ihs iht =>
      obtain ⟨s, hs⟩ := ihs
      obtain ⟨t, ht⟩ := iht
      exact ⟨_, hs.union ht⟩

end Numbers

/-- The tokens form a sentence whose parentheses are not nested too deeply. -/
def Sentence (ts : List (Token L)) : Prop :=
  Grammatical .sum ts ∧ Token.nesting ts ≤ maxNesting

/-- Some sentence starts with the tokens. -/
def StartsSentence (ts : List (Token L)) : Prop :=
  ∃ rest, Sentence (ts ++ rest)

/-- The token may follow the tokens in front of it: the end follows a sentence, and any other token
one that it continues. -/
def CanFollow (before : List (Token L)) : Token L → Prop
  | .finish => Sentence before
  | token => StartsSentence (before ++ [token])

namespace Parser

variable {p p' : Parser L} {ts us : List (Token L)} {token : Token L}

/-- The sentences are what can be read to the end. -/
theorem sentence_iff :
    Sentence ts ↔ ∃ p t, begin.readAll ts = .ok p ∧ p.finish = .ok t := by
  constructor
  · intro h
    obtain ⟨t, ht⟩ := grammatical_iff_derives.mp h.1
    obtain ⟨p, hread, hfinish⟩ := (readAll_of_derives ht).1 h.2
    exact ⟨p, t, hread, hfinish⟩
  · intro h
    rcases h with ⟨p, t, hread, hfinish⟩
    exact ⟨((hasRead_begin.readAll hread).finish hfinish).grammatical,
      deepest_le_of_readAll hread (Nat.zero_le _)⟩

/-- Open parentheses behind a factor can be closed one after the other. -/
theorem exists_closing (frame : Frame L) (outer : List (Frame L)) (t : Term L) :
    ∃ rest p u, Parser.readAll ⟨frame, outer, some t⟩ rest = .ok p ∧ p.finish = .ok u := by
  induction outer generalizing frame t with
  | nil => exact ⟨[], _, _, rfl, rfl⟩
  | cons f outer ih =>
      obtain ⟨rest, p, u, hread, hfinish⟩ := ih f (frame.closeSum t)
      exact ⟨.rightParen :: rest, p, u, readAll_cons_eq_ok_iff.mpr ⟨_, rfl, hread⟩, hfinish⟩

/-- Whatever was read can be completed.  If an atom is needed, the empty word is always one. -/
theorem exists_completion (p : Parser L) :
    ∃ rest p' t, p.readAll rest = .ok p' ∧ p'.finish = .ok t := by
  obtain ⟨frame, outer, factor⟩ := p
  cases factor with
  | some t => exact exists_closing frame outer t
  | none =>
      obtain ⟨rest, p', u, hread, hfinish⟩ := exists_closing frame outer .one
      exact ⟨.number 1 :: rest, p', u, readAll_cons_eq_ok_iff.mpr ⟨_, rfl, hread⟩, hfinish⟩

/-- Sentences start with what can be read without an error. -/
theorem startsSentence_iff : StartsSentence ts ↔ ∃ p, begin.readAll ts = .ok p := by
  constructor
  · intro h
    rcases h with ⟨rest, hsentence⟩
    obtain ⟨p, -, hread, -⟩ := sentence_iff.mp hsentence
    obtain ⟨q, hq, -⟩ := readAll_append_eq_ok_iff.mp hread
    exact ⟨q, hq⟩
  · intro h
    rcases h with ⟨p, hread⟩
    obtain ⟨rest, p', t, hrest, hfinish⟩ := p.exists_completion
    exact ⟨rest, sentence_iff.mpr
      ⟨p', t, readAll_append_eq_ok_iff.mpr ⟨p, hread, hrest⟩, hfinish⟩⟩

theorem canFollow_finish_iff (hread : begin.readAll ts = .ok p) :
    CanFollow ts .finish ↔ ∃ t, p.finish = .ok t := by
  refine sentence_iff.trans ⟨?_, fun ⟨t, ht⟩ => ⟨p, t, hread, ht⟩⟩
  rintro ⟨q, t, hq, ht⟩
  cases hread.symm.trans hq
  exact ⟨t, ht⟩

theorem canFollow_iff (hread : begin.readAll ts = .ok p) (htoken : token ≠ .finish) :
    CanFollow ts token ↔ ∃ p', p.read token = .ok p' := by
  have hfollow : CanFollow ts token ↔ StartsSentence (ts ++ [token]) := by
    cases token <;> first | exact Iff.rfl | exact absurd rfl htoken
  rw [hfollow, startsSentence_iff]
  refine exists_congr fun p' => ?_
  rw [readAll_append_eq_ok_iff]
  constructor
  · rintro ⟨q, hq, h⟩
    cases hread.symm.trans hq
    obtain ⟨r, hr, h⟩ := readAll_cons_eq_ok_iff.mp h
    cases h
    exact hr
  · exact fun h => ⟨p, hread, readAll_cons_eq_ok_iff.mpr ⟨p', h, rfl⟩⟩

end Parser

end FiniteState
