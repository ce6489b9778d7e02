import FiniteState.Proofs.Term.Sentence
/-!
Which token is blamed.  A stream is decided at the first token that cannot follow those in front of
it, or at its first end token: this token is read, and nothing behind it matters.  Only a stream
that breaks off before fails for a reason of its own.
-/

namespace FiniteState

universe u

variable {L : Type u}

/-- The tokens that a stream delivers before it breaks off, up to the end that follows the last
one. -/
def TokenStream.delivered (s : TokenStream L) : List (Token L × Nat) :=
  s.tokens ++
    match s.ending with
    | .ok line => [(.finish, line)]
    | .error _ => []

namespace TokenStream

open FiniteState.Parser

variable [Shown L] {s : TokenStream L} {before entries : List (Token L × Nat)} {token : Token L}
  {line : Nat} {outcome : Except SyntaxError (Term L)}

/-- The token with its line is delivered behind the tokens `before`, and it decides the outcome:
whatever might be delivered behind it makes no difference. -/
structure Decided (s : TokenStream L) (before : List (Token L × Nat)) (token : Token L) (line : Nat)
    (outcome : Except SyntaxError (Term L)) : Prop where
  delivers : before ++ [(token, line)] <+: s.delivered
  parse_eq : s.parse = outcome
  whatever_follows : ∀ later ending,
    (⟨before ++ (token, line) :: later, ending⟩ : TokenStream L).parse = outcome

section Ends

/-- It makes no difference whether the end follows the tokens or is the last one of them. -/
theorem run_concat_finish (p : Parser L) (entries : List (Token L × Nat))
    (ending : Except LexicalError Nat) :
    p.run (entries ++ [(.finish, line)]) ending = p.run entries (.ok line) := by
  induction entries generalizing p with
  | nil => rfl
  | cons entry rest ih =>
      obtain ⟨token, line'⟩ := entry
      by_cases htoken : token = .finish
      · subst htoken
        rfl
      · rw [List.cons_append, run_cons htoken, run_cons htoken]
        split
        · rfl
        · exact ih _

theorem parse_eq_run_delivered (s : TokenStream L) : s.parse = begin.run s.delivered s.ending := by
  rw [parse, delivered]
  cases s.ending with
  | ok line => rw [run_concat_finish]
  | error e => rw [List.append_nil]

omit [Shown L] in
theorem body_eq_upToFinish_delivered (s : TokenStream L) :
    s.body = body.upToFinish s.delivered := by
  have hconcat (entries : List (Token L × Nat)) (line : Nat) :
      body.upToFinish (entries ++ [(.finish, line)]) = body.upToFinish entries := by
    induction entries with
    | nil => rfl
    | cons entry rest ih =>
        obtain ⟨token, line'⟩ := entry
        by_cases htoken : token = .finish
        · subst htoken
          rfl
        · rw [List.cons_append, upToFinish_cons htoken, upToFinish_cons htoken, ih]
  rw [body, delivered]
  cases s.ending with
  | ok line => exact (hconcat _ _).symm
  | error e => rw [List.append_nil]

omit [Shown L] in
theorem exists_upToFinish (h : (.finish, line) ∈ entries) :
    ∃ before line', before ++ [(.finish, line')] <+: entries ∧
      body.upToFinish entries = before.map Prod.fst := by
  induction entries with
  | nil => exact absurd h List.not_mem_nil
  | cons entry rest ih =>
      obtain ⟨token, line'⟩ := entry
      by_cases htoken : token = .finish
      · subst htoken
        exact ⟨[], line', by simp, rfl⟩
      · have hrest := (List.mem_cons.mp h).resolve_left fun heq =>
          htoken (congrArg Prod.fst heq).symm
        obtain ⟨before, line'', hbefore, hbody⟩ := ih hrest
        refine ⟨(token, line') :: before, line'', List.cons_prefix_cons.mpr ⟨rfl, hbefore⟩, ?_⟩
        rw [upToFinish_cons htoken, hbody, List.map_cons]

end Ends

/-- A token decides the outcome if the parser comes to a stop there. -/
theorem decided_of_run {p : Parser L} (hread : begin.readAll (before.map Prod.fst) = .ok p)
    (hdelivers : before ++ [(token, line)] <+: s.delivered)
    (hrun : ∀ later ending, p.run ((token, line) :: later) ending = outcome) :
    s.Decided before token line outcome := by
  refine ⟨hdelivers, ?_, fun later ending => (run_append hread).trans (hrun later ending)⟩
  obtain ⟨later, hlater⟩ := hdelivers
  rw [parse_eq_run_delivered, ← hlater, List.append_assoc, run_append hread]
  exact hrun later s.ending

/-- The end token decides the outcome: behind a sentence the stream is parsed, and otherwise the
end is blamed. -/
theorem decided_of_finish {p : Parser L} (hread : begin.readAll (before.map Prod.fst) = .ok p)
    (hdelivers : before ++ [(.finish, line)] <+: s.delivered) :
    s.Decided before .finish line (blame (L := L) .finish line p.finish) :=
  decided_of_run hread hdelivers fun _ _ => rfl

/-- A sentence in front of the first end is parsed. -/
theorem exists_parse_of_sentence (hend : (.finish, line) ∈ s.delivered) (h : Sentence s.body) :
    ∃ t, s.parse = .ok t := by
  obtain ⟨before, line', hdelivers, hbody⟩ := exists_upToFinish hend
  rw [body_eq_upToFinish_delivered, hbody] at h
  obtain ⟨p, t, hread, hfinish⟩ := sentence_iff.mp h
  refine ⟨t, (decided_of_finish hread hdelivers).parse_eq.trans ?_⟩
  rw [hfinish]
  rfl

/-- A stream is parsed, or fails at the first token that cannot follow, or breaks off before. -/
theorem parsed_or_blamed_or_broken (s : TokenStream L) :
    (∃ before line t, Sentence (before.map Prod.fst) ∧ s.Decided before .finish line (.ok t)) ∨
    (∃ before token line expected, StartsSentence (before.map Prod.fst) ∧
      ¬ CanFollow (before.map Prod.fst) token ∧
      s.Decided before token line (.error (.unexpected line (shown token) expected))) ∨
    ∃ e, s.ending = .error e ∧ StartsSentence (s.tokens.map Prod.fst) ∧
      s.parse = .error (.lexical e) := by
  obtain ⟨before, p, hread, hall | ⟨token, line, later, expected, hstop, herror⟩⟩ :=
    exists_read begin s.delivered
  · -- The end token is never read, so the stream has none.
    refine Or.inr (Or.inr ?_)
    cases hending : s.ending with
    | ok line =>
        rw [← hall, delivered, hending, List.map_append, readAll_append_eq_ok_iff] at hread
        obtain ⟨q, -, hfinish⟩ := hread
        obtain ⟨r, hr, -⟩ := readAll_cons_eq_ok_iff.mp hfinish
        exact absurd rfl (ne_finish_of_read hr)
    | error e =>
        rw [← hall, delivered, hending, List.append_nil] at hread
        refine ⟨e, rfl, startsSentence_iff.mpr ⟨p, hread⟩, ?_⟩
        rw [parse, hending, run_of_readAll hread]
        rfl
  · have hdelivers : before ++ [(token, line)] <+: s.delivered :=
      ⟨later, by rw [hstop, List.append_assoc, List.singleton_append]⟩
    by_cases htoken : token = .finish
    · subst htoken
      have hdecided := decided_of_finish hread hdelivers
      cases hfinish : p.finish with
      | ok t =>
          rw [hfinish] at hdecided
          exact Or.inl ⟨before, line, t, sentence_iff.mpr ⟨p, t, hread, hfinish⟩, hdecided⟩
      | error expected =>
          rw [hfinish] at hdecided
          refine Or.inr (Or.inl ⟨before, .finish, line, expected, startsSentence_iff.mpr ⟨p, hread⟩,
            ?_, hdecided⟩)
          rw [canFollow_finish_iff hread, hfinish]
          simp
    · refine Or.inr (Or.inl ⟨before, token, line, expected, startsSentence_iff.mpr ⟨p, hread⟩, ?_,
        decided_of_run hread hdelivers fun _ _ => run_cons_of_error htoken herror⟩)
      rw [canFollow_iff hread htoken, herror]
      simp

end TokenStream

/-- The parser accepts exactly the sentences of the grammar, and a stream that is none fails at the
first token that no sentence has at its place, unless it breaks off before.  The parser looks no
further than that token, or than the first end. -/
theorem sentences_are_parsed_and_first_misfit_is_blamed [Shown L] (s : TokenStream L) :
    ((∃ t, s.parse = .ok t) ↔ (∃ line, (.finish, line) ∈ s.delivered) ∧ Sentence s.body) ∧
    ((∃ before line t, Sentence (before.map Prod.fst) ∧ s.Decided before .finish line (.ok t)) ∨
      (∃ before token line expected, StartsSentence (before.map Prod.fst) ∧
        ¬ CanFollow (before.map Prod.fst) token ∧
        s.Decided before token line (.error (.unexpected line (shown token) expected))) ∨
      ∃ e, s.ending = .error e ∧ StartsSentence (s.tokens.map Prod.fst) ∧
        s.parse = .error (.lexical e)) := by
  have houtcome := s.parsed_or_blamed_or_broken
  refine ⟨⟨?_, fun ⟨⟨_, hend⟩, h⟩ => TokenStream.exists_parse_of_sentence hend h⟩, houtcome⟩
  rintro ⟨t, hparse⟩
  obtain ⟨p, hread, hfinish⟩ := Parser.readAll_of_run hparse
  refine ⟨?_, Parser.sentence_iff.mpr ⟨p, t, hread, hfinish⟩⟩
  rcases houtcome with ⟨before, line, t', -, hdecided⟩ | ⟨_, _, _, _, -, -, hdecided⟩ | ⟨_, -, -, h⟩
  · exact ⟨line, hdecided.delivers.subset (by simp)⟩
  · cases hparse.symm.trans hdecided.parse_eq
  · cases hparse.symm.trans h

end FiniteState
