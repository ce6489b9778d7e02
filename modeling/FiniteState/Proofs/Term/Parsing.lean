import FiniteState.Proofs.Term.Grammar
/-!
The parser follows the grammar.  Between two tokens its frames hold terms for the tokens that were
read, so the term in the end is one that the tokens stand for.
-/

namespace FiniteState

universe u

variable {L : Type u}

namespace Frame

variable {f : Frame L} {before ts : List (Token L)} {t : Term L}

/-- The tokens back to the last open parenthesis, up to the last `+`. -/
def SumRead (f : Frame L) (ts : List (Token L)) : Prop :=
  match f.sum with
  | none => ts = []
  | some s => ∃ us, Derives .sum us s ∧ ts = us ++ [.plus]

/-- The tokens behind the last `+`, up to the last `#` or `|`. -/
def MixedRead (f : Frame L) (ts : List (Token L)) : Prop :=
  match f.mixed with
  | none => ts = []
  | some (m, op) => ∃ us, Derives .mixed us m ∧ ts = us ++ [op.token]

/-- The tokens of the factors behind that. -/
def ProductRead (f : Frame L) (ts : List (Token L)) : Prop :=
  match f.product with
  | none => ts = []
  | some p => Derives .product ts p

/-- The frame holds what the tokens in front of the present factor stand for. -/
structure Holds (f : Frame L) (sum mixed product : List (Token L)) : Prop where
  sum : f.SumRead sum
  mixed : f.MixedRead mixed
  product : f.ProductRead product

/-- Whether the tokens of a factor may follow in the frame. -/
def Joins (f : Frame L) (ts : List (Token L)) : Prop :=
  f.product = none ∨ ∀ n, ts.head? ≠ some (.number n)

variable {sum mixed product : List (Token L)}

theorem holds_empty : (empty : Frame L).Holds [] [] [] :=
  ⟨rfl, rfl, rfl⟩

theorem Holds.closeProduct (h : f.Holds sum mixed product) (ht : Derives .factor ts t)
    (hjoins : f.Joins ts) : Derives .product (product ++ ts) (f.closeProduct t) := by
  obtain ⟨s, m, p⟩ := f
  have hproduct := h.product
  cases p with
  | none =>
      cases hproduct
      exact .ofFactor ht
  | some p => exact .concatenation hproduct ht (hjoins.resolve_left (by simp))

theorem Holds.closeMixed (h : f.Holds sum mixed product) (ht : Derives .factor ts t)
    (hjoins : f.Joins ts) : Derives .mixed (mixed ++ (product ++ ts)) (f.closeMixed t) := by
  have hclose := h.closeProduct ht hjoins
  obtain ⟨s, m, p⟩ := f
  have hmixed := h.mixed
  cases m with
  | none =>
      cases hmixed
      exact .ofProduct hclose
  | some m =>
      obtain ⟨us, hus, rfl⟩ := hmixed
      exact hus.interleave m.2 hclose

theorem Holds.closeSum (h : f.Holds sum mixed product) (ht : Derives .factor ts t)
    (hjoins : f.Joins ts) :
    Derives .sum (sum ++ (mixed ++ (product ++ ts))) (f.closeSum t) := by
  have hclose := h.closeMixed ht hjoins
  obtain ⟨s, m, p⟩ := f
  have hsum := h.sum
  cases s with
  | none =>
      cases hsum
      exact .ofMixed hclose
  | some s =>
      obtain ⟨us, hus, rfl⟩ := hsum
      exact .union hus hclose

end Frame

namespace Parser

/-- The frames outside of the innermost parenthesis hold the tokens up to that parenthesis. -/
inductive OuterHolds : List (Frame L) → List (Token L) → Prop where
  | nil : OuterHolds [] []
  | cons {f : Frame L} {outer : List (Frame L)} {before sum mixed product : List (Token L)} :
      OuterHolds outer before → f.Holds sum mixed product →
        OuterHolds (f :: outer) (before ++ (sum ++ (mixed ++ product)) ++ [.leftParen])

/-- The parser has read the tokens. -/
inductive HasRead : Parser L → List (Token L) → Prop where
  | atom {f : Frame L} {outer : List (Frame L)} {before sum mixed : List (Token L)} :
      OuterHolds outer before → f.Holds sum mixed [] → f.product = none →
        HasRead ⟨f, outer, none⟩ (before ++ (sum ++ mixed))
  | behind {f : Frame L} {outer : List (Frame L)} {before sum mixed product ts : List (Token L)}
      {t : Term L} : OuterHolds outer before → f.Holds sum mixed product →
        Derives .factor ts t → f.Joins ts →
        HasRead ⟨f, outer, some t⟩ (before ++ (sum ++ (mixed ++ (product ++ ts))))

variable {p p' : Parser L} {ts : List (Token L)} {t : Term L} {token : Token L}

theorem hasRead_begin : HasRead (begin : Parser L) [] := by
  have h : HasRead (begin : Parser L) ([] ++ ([] ++ [])) := .atom .nil Frame.holds_empty rfl
  exact h

theorem HasRead.openParen {f : Frame L} {outer : List (Frame L)}
    {before sum mixed product : List (Token L)} (houter : OuterHolds outer before)
    (hframe : f.Holds sum mixed product) (h : Parser.openParen f outer = .ok p') :
    HasRead p' (before ++ (sum ++ (mixed ++ product)) ++ [.leftParen]) := by
  unfold Parser.openParen at h
  split at h
  · cases h
  · cases h
    have hread := HasRead.atom (houter.cons hframe) Frame.holds_empty rfl
    simpa using hread

theorem HasRead.readAtom {f : Frame L} {outer : List (Frame L)} {before sum mixed : List (Token L)}
    (houter : OuterHolds outer before) (hframe : f.Holds sum mixed []) (hproduct : f.product = none)
    (h : Parser.readAtom ⟨f, outer, none⟩ token = .ok p') :
    HasRead p' (before ++ (sum ++ mixed) ++ [token]) := by
  have hfactor {t : Term L} (ht : Derives .atom [token] t) :
      HasRead ⟨f, outer, some t⟩ (before ++ (sum ++ mixed) ++ [token]) := by
    have hread := HasRead.behind houter hframe (.ofAtom ht) (Or.inl hproduct)
    simpa using hread
  unfold Parser.readAtom at h
  split at h
  · cases h
    exact hfactor (.letter _)
  · cases h
    exact hfactor .zero
  · cases h
    exact hfactor .one
  · have hread := HasRead.openParen houter hframe h
    simpa using hread
  · cases h

theorem HasRead.close {f : Frame L} {outer : List (Frame L)}
    {before sum mixed product : List (Token L)} (houter : OuterHolds outer before)
    (hframe : f.Holds sum mixed product) (ht : Derives .factor ts t) (hjoins : f.Joins ts)
    (h : Parser.close ⟨f, outer, some t⟩ t = .ok p') :
    HasRead p' (before ++ (sum ++ (mixed ++ (product ++ ts))) ++ [.rightParen]) := by
  have hsum := hframe.closeSum ht hjoins
  cases houter with
  | nil => cases h
  | cons houter hbelow =>
      cases h
      have hread := HasRead.behind houter hbelow (.ofAtom (.parens hsum)) (Or.inr (by simp))
      simpa using hread

/-- Reading a token behind a factor extends the factor, starts another one or closes a
parenthesis. -/
theorem HasRead.readBehind {f : Frame L} {outer : List (Frame L)}
    {before sum mixed product : List (Token L)} (houter : OuterHolds outer before)
    (hframe : f.Holds sum mixed product) (ht : Derives .factor ts t) (hjoins : f.Joins ts)
    (h : Parser.readBehind ⟨f, outer, some t⟩ t token = .ok p') :
    HasRead p' (before ++ (sum ++ (mixed ++ (product ++ ts))) ++ [token]) := by
  obtain ⟨first, rest, hts, hfirst⟩ := ht.exists_cons
  have hextend {u : Term L} (hu : Derives .factor (ts ++ [token]) u) :
      HasRead ⟨f, outer, some u⟩ (before ++ (sum ++ (mixed ++ (product ++ ts))) ++ [token]) := by
    have hjoins' : f.Joins (ts ++ [token]) := by
      refine hjoins.imp_right fun hnumber n => ?_
      rw [hts, List.cons_append, List.head?_cons] at *
      exact hnumber n
    have hread := HasRead.behind houter hframe hu hjoins'
    simpa using hread
  have hproduct : Frame.Holds { f with product := some (f.closeProduct t) } sum mixed
      (product ++ ts) :=
    ⟨hframe.sum, hframe.mixed, hframe.closeProduct ht hjoins⟩
  have hmixed (op : Interleaving) :
      HasRead ⟨⟨f.sum, some (f.closeMixed t, op), none⟩, outer, none⟩
        (before ++ (sum ++ (mixed ++ (product ++ ts))) ++ [op.token]) := by
    have hread := HasRead.atom (f := ⟨f.sum, some (f.closeMixed t, op), none⟩) houter
      ⟨hframe.sum, ⟨_, hframe.closeMixed ht hjoins, rfl⟩, rfl⟩ rfl
    simpa using hread
  cases token with
  | star =>
      cases h
      exact hextend (.star ht)
  | caret =>
      cases h
      exact hextend (.plus ht)
  | number n =>
      cases h
      exact hextend (.power n ht)
  | letter l =>
      cases h
      have hread := HasRead.behind houter hproduct (.ofAtom (.letter l)) (Or.inr (by simp))
      simpa using hread
  | leftParen =>
      have hread := HasRead.openParen houter hproduct h
      simpa using hread
  | mix =>
      cases h
      exact hmixed .mix
  | shuffle =>
      cases h
      exact hmixed .shuffle
  | plus =>
      cases h
      have hread := HasRead.atom (f := ⟨some (f.closeSum t), none, none⟩) houter
        ⟨⟨_, hframe.closeSum ht hjoins, rfl⟩, rfl, rfl⟩ rfl
      simpa using hread
  | rightParen => exact HasRead.close houter hframe ht hjoins h
  | finish => cases h

/-- Reading one more token keeps to the grammar. -/
theorem HasRead.read (hp : HasRead p ts) (h : p.read token = .ok p') :
    HasRead p' (ts ++ [token]) := by
  cases hp with
  | atom houter hframe hproduct => exact HasRead.readAtom houter hframe hproduct h
  | behind houter hframe ht hjoins => exact HasRead.readBehind houter hframe ht hjoins h

theorem HasRead.finish (hp : HasRead p ts) (h : p.finish = .ok t) : Derives .sum ts t := by
  cases hp with
  | atom _ _ _ => cases h
  | behind houter hframe ht hjoins =>
      cases houter with
      | nil =>
          cases h
          exact hframe.closeSum ht hjoins
      | cons _ _ => cases h

def readAll (p : Parser L) (ts : List (Token L)) : Except Expectation (Parser L) :=
  ts.foldlM read p

theorem readAll_cons_eq_ok_iff {ts : List (Token L)} :
    p.readAll (token :: ts) = .ok p' ↔ ∃ q, p.read token = .ok q ∧ q.readAll ts = .ok p' := by
  rw [readAll, List.foldlM_cons]
  cases p.read token with
  | error e => exact ⟨nofun, nofun⟩
  | ok q => exact ⟨fun h => ⟨q, rfl, h⟩, fun ⟨_, rfl, h⟩ => h⟩

theorem readAll_cons_eq_error_iff {ts : List (Token L)} {e : Expectation} :
    p.readAll (token :: ts) = .error e ↔
      p.read token = .error e ∨ ∃ q, p.read token = .ok q ∧ q.readAll ts = .error e := by
  rw [readAll, List.foldlM_cons]
  cases p.read token with
  | error e' => exact ⟨Or.inl, fun h => h.resolve_right nofun⟩
  | ok q => exact ⟨fun h => Or.inr ⟨q, rfl, h⟩, fun h => h.elim nofun fun ⟨_, rfl, h⟩ => h⟩

theorem readAll_append (p : Parser L) (ts us : List (Token L)) :
    p.readAll (ts ++ us) = p.readAll ts >>= fun p' => p'.readAll us :=
  List.foldlM_append

theorem readAll_append_eq_ok_iff {us : List (Token L)} :
    p.readAll (ts ++ us) = .ok p' ↔ ∃ q, p.readAll ts = .ok q ∧ q.readAll us = .ok p' := by
  rw [readAll_append]
  cases p.readAll ts with
  | error e => exact ⟨nofun, nofun⟩
  | ok q => exact ⟨fun h => ⟨q, rfl, h⟩, fun ⟨_, rfl, h⟩ => h⟩

theorem HasRead.readAll {us : List (Token L)} (hp : HasRead p ts) (h : p.readAll us = .ok p') :
    HasRead p' (ts ++ us) := by
  induction us generalizing p ts with
  | nil =>
      cases h
      simpa using hp
  | cons token us ih =>
      obtain ⟨q, hread, h⟩ := readAll_cons_eq_ok_iff.mp h
      have hrest := ih (hp.read hread) h
      rwa [List.append_assoc] at hrest

section Streams

variable {before later entries : List (Token L × Nat)} {line : Nat} {expected : Expectation}
  {ending : Except LexicalError Nat}

/-- The end token is never read. -/
theorem ne_finish_of_read (h : p.read token = .ok p') : token ≠ .finish := by
  rintro rfl
  obtain ⟨frame, outer, factor⟩ := p
  cases factor <;> cases h

/-- Some tokens are read, until one is not or all of them are. -/
theorem exists_read (p : Parser L) (entries : List (Token L × Nat)) :
    ∃ before p', p.readAll (before.map Prod.fst) = .ok p' ∧
      (entries = before ∨ ∃ token line later expected, entries = before ++ (token, line) :: later ∧
        p'.read token = .error expected) := by
  induction entries generalizing p with
  | nil => exact ⟨[], p, rfl, Or.inl rfl⟩
  | cons entry rest ih =>
      obtain ⟨token, line⟩ := entry
      cases hread : p.read token with
      | error expected => exact ⟨[], p, rfl, Or.inr ⟨token, line, rest, expected, rfl, hread⟩⟩
      | ok q =>
          obtain ⟨before, p', h, hrest⟩ := ih q
          refine ⟨(token, line) :: before, p', readAll_cons_eq_ok_iff.mpr ⟨q, hread, h⟩, ?_⟩
          rcases hrest with rfl | ⟨token', line', later, expected, rfl, herror⟩
          · exact Or.inl rfl
          · exact Or.inr ⟨token', line', later, expected, rfl, herror⟩

theorem upToFinish_cons (htoken : token ≠ .finish) :
    TokenStream.body.upToFinish ((token, line) :: entries) =
      token :: TokenStream.body.upToFinish entries := by
  cases token <;> first | rfl | exact absurd rfl htoken

variable [Shown L]

theorem eq_ok_of_blame_eq_ok {α : Type u} {e : Except Expectation α} {value : α}
    (h : blame token line e = .ok value) : e = .ok value := by
  cases e with
  | error _ => cases h
  | ok _ =>
      cases h
      rfl

theorem run_cons (htoken : token ≠ .finish) :
    p.run ((token, line) :: entries) ending =
      match blame token line (p.read token) with
      | .error e => .error e
      | .ok p => p.run entries ending := by
  cases token <;> first | rfl | exact absurd rfl htoken

theorem run_append (h : p.readAll (before.map Prod.fst) = .ok p') :
    p.run (before ++ later) ending = p'.run later ending := by
  induction before generalizing p with
  | nil =>
      cases h
      rfl
  | cons entry before ih =>
      obtain ⟨token, line⟩ := entry
      obtain ⟨q, hread, h⟩ := readAll_cons_eq_ok_iff.mp h
      rw [List.cons_append, run_cons (ne_finish_of_read hread), hread]
      exact ih h

/-- Behind tokens that are read without an error only the end of the stream is left. -/
theorem run_of_readAll (h : p.readAll (entries.map Prod.fst) = .ok p') :
    p.run entries ending = p'.run [] ending := by
  rw [← run_append h, List.append_nil]

theorem run_cons_of_error (htoken : token ≠ .finish) (h : p.read token = .error expected) :
    p.run ((token, line) :: later) ending = .error (.unexpected line (shown token) expected) := by
  rw [run_cons htoken, h]
  rfl

/-- A run that succeeds has read the tokens in front of the end. -/
theorem readAll_of_run (h : p.run entries ending = .ok t) :
    ∃ p', p.readAll (TokenStream.body.upToFinish entries) = .ok p' ∧ p'.finish = .ok t := by
  induction entries generalizing p with
  | nil =>
      cases ending with
      | error e => cases h
      | ok line => exact ⟨p, rfl, eq_ok_of_blame_eq_ok h⟩
  | cons entry rest ih =>
      obtain ⟨token, line⟩ := entry
      by_cases htoken : token = .finish
      · subst htoken
        exact ⟨p, rfl, eq_ok_of_blame_eq_ok h⟩
      · rw [run_cons htoken] at h
        rw [upToFinish_cons htoken]
        split at h
        · cases h
        · rename_i q hread
          obtain ⟨p', hrest, hend⟩ := ih h
          exact ⟨p', readAll_cons_eq_ok_iff.mpr ⟨q, eq_ok_of_blame_eq_ok hread, hrest⟩, hend⟩

end Streams

end Parser

end FiniteState
