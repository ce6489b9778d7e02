import FiniteState.Proofs.Term.Parsing
/-!
The grammar is unambiguous.  The parser is led by the tokens alone: wherever tokens stand for a
term, it reads that very term, unless parentheses are nested too deeply for it.
-/

namespace FiniteState

universe u

variable {L : Type u}

namespace Parser

variable {p p' : Parser L} {ts us : List (Token L)} {s t : Term L} {good next : Parser L → Prop}

/-- Reading the tokens leads to a good parser, unless it stops at a parenthesis that is too deep. -/
def Leads (p : Parser L) (ts : List (Token L)) (good : Parser L → Prop) : Prop :=
  p.readAll ts = .error .shallower ∨ ∃ p', p.readAll ts = .ok p' ∧ good p'

theorem Leads.append (h : p.Leads ts good) (hnext : ∀ p', good p' → p'.Leads us next) :
    p.Leads (ts ++ us) next := by
  rcases h with h | ⟨p', h, hgood⟩
  · apply Or.inl
    rw [readAll_append, h]
    rfl
  · have hread : p.readAll (ts ++ us) = p'.readAll us := by
      rw [readAll_append, h]
      rfl
    rw [Leads, hread]
    exact hnext p' hgood

theorem leads_of_read {token : Token L} (h : p.read token = .ok p') (hgood : good p') :
    p.Leads [token] good := by
  refine Or.inr ⟨p', ?_, hgood⟩
  rw [readAll, List.foldlM_cons, h]
  rfl

/-- What stands in the frame where a part of the given level may start. -/
def Ready : Level → Frame L → Prop
  | .sum, f => f = .empty
  | .mixed, f => f.mixed = none ∧ f.product = none
  | .product, f => f.product = none
  | .factor, _ => True
  | .atom, _ => True

/-- The parser behind a part of the given level that started in the given frame. -/
def Behind (f : Frame L) (outer : List (Frame L)) (t : Term L) : Level → Parser L → Prop
  | .sum, p => ∃ f' u, p = ⟨f', outer, some u⟩ ∧ f'.closeSum u = t
  | .mixed, p => ∃ f' u, p = ⟨f', outer, some u⟩ ∧ f'.sum = f.sum ∧ f'.closeMixed u = t
  | .product, p =>
      ∃ f' u, p = ⟨f', outer, some u⟩ ∧ f'.sum = f.sum ∧ f'.mixed = f.mixed ∧
        f'.closeProduct u = t
  | .factor, p => p = ⟨f, outer, some t⟩
  | .atom, p => p = ⟨f, outer, some t⟩

/-- Behind a factor, what starts an atom but is no number starts the next factor. -/
theorem readBehind_eq_readAtom {token : Token L} (hatom : token.StartsAtom)
    (hnumber : ∀ n, token ≠ .number n) (f : Frame L) (outer : List (Frame L)) (t : Term L) :
    Parser.read ⟨f, outer, some t⟩ token =
      Parser.read ⟨{ f with product := some (f.closeProduct t) }, outer, none⟩ token := by
  cases token with
  | letter l => rfl
  | leftParen => rfl
  | number n => exact absurd rfl (hnumber n)
  | _ => exact absurd hatom id

theorem readAll_behind_eq (ht : Derives .factor ts t) (hnumber : ∀ n, ts.head? ≠ some (.number n))
    (f : Frame L) (outer : List (Frame L)) (u : Term L) :
    Parser.readAll ⟨f, outer, some u⟩ ts =
      Parser.readAll ⟨{ f with product := some (f.closeProduct u) }, outer, none⟩ ts := by
  obtain ⟨token, rest, rfl, hatom⟩ := ht.exists_cons
  rw [readAll, readAll, List.foldlM_cons, List.foldlM_cons,
    readBehind_eq_readAtom hatom fun n hn => hnumber n (by rw [hn, List.head?_cons])]

theorem leads_interleave (op : Interleaving) {f : Frame L} {outer : List (Frame L)}
    (hs : Leads ⟨f, outer, none⟩ ts (Behind f outer s .mixed))
    (ht : ∀ f' : Frame L, f'.product = none →
      Leads ⟨f', outer, none⟩ us (Behind f' outer t .product)) :
    Leads ⟨f, outer, none⟩ (ts ++ [op.token] ++ us) (Behind f outer (op.apply s t) .mixed) := by
  have hop : Leads ⟨f, outer, none⟩ (ts ++ [op.token]) fun p =>
      ∃ f', f'.sum = f.sum ∧ f'.mixed = some (s, op) ∧ f'.product = none ∧
        p = ⟨f', outer, none⟩ := by
    apply hs.append
    intro p' hp'
    obtain ⟨f', u, rfl, hsum, rfl⟩ := hp'
    have hread : Parser.read ⟨f', outer, some u⟩ op.token =
        .ok ⟨⟨f'.sum, some (f'.closeMixed u, op), none⟩, outer, none⟩ := by
      cases op <;> rfl
    exact leads_of_read hread ⟨⟨f'.sum, some (f'.closeMixed u, op), none⟩, hsum, rfl, rfl, rfl⟩
  apply hop.append
  intro p' hp'
  obtain ⟨f', hsum, hmixed, hproduct, rfl⟩ := hp'
  rcases ht f' hproduct with h | ⟨p', h, f'', u, rfl, hsum', hmixed', hclose⟩
  · exact Or.inl h
  · refine Or.inr ⟨_, h, f'', u, rfl, hsum'.trans hsum, ?_⟩
    rw [Frame.closeMixed, hmixed', hmixed, hclose]

theorem leads_postfix {f : Frame L} {outer : List (Frame L)} {token : Token L} {u : Term L}
    (ht : Leads ⟨f, outer, none⟩ ts (Behind f outer t .factor))
    (hread : Parser.read ⟨f, outer, some t⟩ token = .ok ⟨f, outer, some u⟩) :
    Leads ⟨f, outer, none⟩ (ts ++ [token]) (Behind f outer u .factor) := by
  apply ht.append
  intro p' hp'
  cases hp'
  exact leads_of_read hread rfl

/-- Wherever tokens stand for a term, the parser reads that term. -/
theorem leads_of_derives {level : Level} (h : Derives level ts t) (f : Frame L)
    (outer : List (Frame L)) (hf : Ready level f) :
    Leads ⟨f, outer, none⟩ ts (Behind f outer t level) := by
  induction h generalizing f outer with
  | letter l => exact leads_of_read rfl rfl
  | zero => exact leads_of_read rfl rfl
  | one => exact leads_of_read rfl rfl
  | @parens ts t _ ih =>
      have hopen : Leads ⟨f, outer, none⟩ [.leftParen] fun p => p = ⟨.empty, f :: outer, none⟩ := by
        have hread : Parser.readAll ⟨f, outer, none⟩ [.leftParen] =
            openParen f outer >>= fun p => .ok p :=
          rfl
        rw [Leads, hread, openParen]
        split
        · exact Or.inl rfl
        · exact Or.inr ⟨_, rfl, rfl⟩
      have hinner : Leads ⟨f, outer, none⟩ ([.leftParen] ++ ts)
          (Behind .empty (f :: outer) t .sum) := by
        apply hopen.append
        intro p' hp'
        cases hp'
        exact ih .empty (f :: outer) rfl
      apply hinner.append
      intro p' hp'
      obtain ⟨f', u, rfl, hclose⟩ := hp'
      apply leads_of_read rfl
      rw [Behind, hclose]
  | ofAtom _ ih => exact ih f outer trivial
  | star _ ih => exact leads_postfix (ih f outer trivial) rfl
  | plus _ ih => exact leads_postfix (ih f outer trivial) rfl
  | power n _ ih => exact leads_postfix (ih f outer trivial) rfl
  | ofFactor _ ih =>
      rcases ih f outer trivial with h | ⟨p', h, hp'⟩
      · exact Or.inl h
      · refine Or.inr ⟨p', h, f, _, hp', rfl, rfl, ?_⟩
        rw [Frame.closeProduct, show f.product = none from hf]
  | concatenation _ ht hnumber ihs iht =>
      apply (ihs f outer hf).append
      intro p' hp'
      obtain ⟨f', u, rfl, hsum, hmixed, rfl⟩ := hp'
      rw [Leads, readAll_behind_eq ht hnumber]
      rcases iht { f' with product := some (f'.closeProduct u) } outer trivial with
        h | ⟨p', h, hp'⟩
      · exact Or.inl h
      · exact Or.inr ⟨p', h, _, _, hp', hsum, hmixed, rfl⟩
  | ofProduct _ ih =>
      rcases ih f outer hf.2 with h | ⟨p', h, f', u, hp', hsum, hmixed, hclose⟩
      · exact Or.inl h
      · refine Or.inr ⟨p', h, f', u, hp', hsum, ?_⟩
        rw [Frame.closeMixed, hmixed, hf.1, hclose]
  | mix _ _ ihs iht => exact leads_interleave .mix (ihs f outer hf) fun f' => iht f' outer
  | shuffle _ _ ihs iht => exact leads_interleave .shuffle (ihs f outer hf) fun f' => iht f' outer
  | ofMixed _ ih =>
      cases hf
      rcases ih .empty outer ⟨rfl, rfl⟩ with h | ⟨p', h, f', u, hp', hsum, hclose⟩
      · exact Or.inl h
      · refine Or.inr ⟨p', h, f', u, hp', ?_⟩
        rw [Frame.closeSum, hsum, Frame.empty, hclose]
  | @union us _ s _ _ _ ihs iht =>
      have hplus : Leads ⟨f, outer, none⟩ (us ++ [.plus]) fun p =>
          p = ⟨⟨some s, none, none⟩, outer, none⟩ := by
        apply (ihs f outer hf).append
        intro p' hp'
        obtain ⟨f', u, rfl, rfl⟩ := hp'
        exact leads_of_read rfl rfl
      apply hplus.append
      intro p' hp'
      cases hp'
      rcases iht ⟨some s, none, none⟩ outer ⟨rfl, rfl⟩ with h | ⟨p', h, f', u, hp', hsum, hclose⟩
      · exact Or.inl h
      · refine Or.inr ⟨p', h, f', u, hp', ?_⟩
        rw [Frame.closeSum, hsum, hclose]

/-- The tokens of a text that was read stand for one term only. -/
theorem eq_of_derives_of_readAll (h : Derives .sum ts s) (hread : begin.readAll ts = .ok p)
    (hfinish : p.finish = .ok t) : s = t := by
  rcases leads_of_derives h .empty [] rfl with herror | ⟨p', hok, f, u, rfl, hclose⟩
  · cases herror.symm.trans hread
  · cases hok.symm.trans hread
    cases hfinish
    exact hclose.symm

end Parser

end FiniteState
