import Sequitur.Parser.Term
import Sequitur.Proofs.Grammar.Proposition

/-! # Grammar of terms

Which tokens make up which term. A function or a case distinction reaches to
the end of its last part; an application is a row of simple terms, taken
together from the left; a simple term is a variable or ends with a closing
parenthesis. The parsers take exactly the tokens that the grammar allows.
-/

namespace Sequitur.Grammar

open Sequitur.Parser

/-- The levels of terms. -/
inductive TermLevel where
  | term
  | application
  | simple
  deriving DecidableEq

/-- A name in front of an arrow. -/
def DerivesBinder (tokens : List Token) (name : String) : Prop :=
  ∃ ident arrow : Token, ident.kind = .ident ∧ arrow.kind = .arrow ∧
    tokens = [ident, arrow] ∧ name = ident.text

/-- A name with its proposition, between parentheses and in front of an arrow. -/
def DerivesTypedBinder (tokens : List Token) (name : String) (p : Proposition) : Prop :=
  ∃ (lpar ident colon rpar arrow : Token) (domain : List Token),
    lpar.kind = .lparen ∧ ident.kind = .ident ∧ colon.kind = .colon ∧
      DerivesProposition (.joined .implies) domain p ∧ rpar.kind = .rparen ∧
      arrow.kind = .arrow ∧ tokens = lpar :: ident :: colon :: (domain ++ [rpar, arrow]) ∧
      name = ident.text

/-- The tokens that make up a term of a level. -/
inductive DerivesTerm : TermLevel → List Token → Term → Prop where
  | lam {word : Token} {binder tokens : List Token} {name : String} {domain : Proposition}
      {body : Term} (hword : word.kind = .lambda)
      (hbinder : DerivesTypedBinder binder name domain) (hbody : DerivesTerm .term tokens body) :
      DerivesTerm .term (word :: (binder ++ tokens)) (.lam name domain body)
  | cases {word ofWord pipe : Token} {ts xs us ys vs : List Token} {t u v : Term}
      {x y : String} (hword : word.kind = .case) (ht : DerivesTerm .term ts t)
      (hof : ofWord.kind = .of) (hx : DerivesBinder xs x) (hu : DerivesTerm .term us u)
      (hpipe : pipe.kind = .pipe) (hy : DerivesBinder ys y) (hv : DerivesTerm .term vs v) :
      DerivesTerm .term (word :: (ts ++ ofWord :: (xs ++ (us ++ pipe :: (ys ++ vs)))))
        (.cases t x u y v)
  | application {tokens : List Token} {t : Term} (ht : DerivesTerm .application tokens t) :
      DerivesTerm .term tokens t
  | head {tokens : List Token} {t : Term} (ht : DerivesTerm .simple tokens t) :
      DerivesTerm .application tokens t
  | argument {fs xs : List Token} {f x : Term} (hf : DerivesTerm .application fs f)
      (hx : DerivesTerm .simple xs x) : DerivesTerm .application (fs ++ xs) (.app f x)
  | var {ident : Token} (hident : ident.kind = .ident) :
      DerivesTerm .simple [ident] (.var ident.text)
  | unit {lpar rpar : Token} (hlpar : lpar.kind = .lparen) (hrpar : rpar.kind = .rparen) :
      DerivesTerm .simple [lpar, rpar] .unit
  | parens {lpar rpar : Token} {tokens : List Token} {t : Term} (hlpar : lpar.kind = .lparen)
      (ht : DerivesTerm .term tokens t) (hrpar : rpar.kind = .rparen) :
      DerivesTerm .simple (lpar :: (tokens ++ [rpar])) t
  | pair {lpar comma rpar : Token} {ls rs : List Token} {l r : Term}
      (hlpar : lpar.kind = .lparen) (hl : DerivesTerm .term ls l) (hcomma : comma.kind = .comma)
      (hr : DerivesTerm .term rs r) (hrpar : rpar.kind = .rparen) :
      DerivesTerm .simple (lpar :: (ls ++ comma :: (rs ++ [rpar]))) (.pair l r)
  | fst {word lpar rpar : Token} {tokens : List Token} {t : Term} (hword : word.kind = .fst)
      (hlpar : lpar.kind = .lparen) (ht : DerivesTerm .term tokens t)
      (hrpar : rpar.kind = .rparen) :
      DerivesTerm .simple (word :: lpar :: (tokens ++ [rpar])) (.fst t)
  | snd {word lpar rpar : Token} {tokens : List Token} {t : Term} (hword : word.kind = .snd)
      (hlpar : lpar.kind = .lparen) (ht : DerivesTerm .term tokens t)
      (hrpar : rpar.kind = .rparen) :
      DerivesTerm .simple (word :: lpar :: (tokens ++ [rpar])) (.snd t)
  | inl {word lpar comma rpar : Token} {ts ps : List Token} {t : Term} {p : Proposition}
      (hword : word.kind = .left) (hlpar : lpar.kind = .lparen) (ht : DerivesTerm .term ts t)
      (hcomma : comma.kind = .comma) (hp : DerivesProposition (.joined .implies) ps p)
      (hrpar : rpar.kind = .rparen) :
      DerivesTerm .simple (word :: lpar :: (ts ++ comma :: (ps ++ [rpar]))) (.inl t p)
  | inr {word lpar comma rpar : Token} {ts ps : List Token} {t : Term} {p : Proposition}
      (hword : word.kind = .right) (hlpar : lpar.kind = .lparen)
      (hp : DerivesProposition (.joined .implies) ps p) (hcomma : comma.kind = .comma)
      (ht : DerivesTerm .term ts t) (hrpar : rpar.kind = .rparen) :
      DerivesTerm .simple (word :: lpar :: (ps ++ comma :: (ts ++ [rpar]))) (.inr p t)
  | absurd {word lpar comma rpar : Token} {ts ps : List Token} {t : Term} {p : Proposition}
      (hword : word.kind = .absurd) (hlpar : lpar.kind = .lparen) (ht : DerivesTerm .term ts t)
      (hcomma : comma.kind = .comma) (hp : DerivesProposition (.joined .implies) ps p)
      (hrpar : rpar.kind = .rparen) :
      DerivesTerm .simple (word :: lpar :: (ts ++ comma :: (ps ++ [rpar]))) (.absurd t p)

/-! ## What the parsers do with their first tokens -/

theorem binder_yields {stream rest : TokenStream} {name : String} :
    binder.Yields stream name rest ↔
      ∃ tokens, stream = rest.prepend tokens ∧ DerivesBinder tokens name := by
  unfold binder
  simp only [yields_expect_bind .ident (by decide), yields_expect_bind .arrow (by decide),
    yields_pure, DerivesBinder]
  constructor
  · rintro ⟨ident, _, hident, rfl, arrow, _, harrow, rfl, rfl, rfl⟩
    exact ⟨_, by simp, ident, arrow, hident, harrow, rfl, rfl⟩
  · rintro ⟨_, rfl, ident, arrow, hident, harrow, rfl, rfl⟩
    exact ⟨ident, rest.prepend [arrow], hident, by simp, arrow, rest, harrow, rfl, rfl, rfl⟩

theorem parenthesised_yields {α : Type} {inner : Parser α} {stream rest : TokenStream} {a : α} :
    (parenthesised inner).Yields stream a rest ↔
      ∃ (lpar rpar : Token) (next : TokenStream), lpar.kind = .lparen ∧ rpar.kind = .rparen ∧
        stream = next.prepend [lpar] ∧ inner.Yields next a (rest.prepend [rpar]) := by
  unfold parenthesised
  simp only [yields_expect_bind .lparen (by decide), yields_expect_bind .rparen (by decide),
    yields_bind, yields_pure]
  constructor
  · rintro ⟨lpar, next, hlpar, rfl, _, _, hinner, rpar, _, hrpar, rfl, rfl, rfl⟩
    exact ⟨lpar, rpar, next, hlpar, hrpar, rfl, hinner⟩
  · rintro ⟨lpar, rpar, next, hlpar, hrpar, rfl, hinner⟩
    exact ⟨lpar, next, hlpar, rfl, a, _, hinner, rpar, rest, hrpar, rfl, rfl, rfl⟩

theorem parenthesisedPair_yields {α β : Type} {first : Parser α} {second : Parser β}
    {stream rest : TokenStream} {a : α} {b : β} :
    (parenthesisedPair first second).Yields stream (a, b) rest ↔
      ∃ (lpar comma rpar : Token) (next middle : TokenStream), lpar.kind = .lparen ∧
        comma.kind = .comma ∧ rpar.kind = .rparen ∧ stream = next.prepend [lpar] ∧
        first.Yields next a (middle.prepend [comma]) ∧
        second.Yields middle b (rest.prepend [rpar]) := by
  unfold parenthesisedPair
  simp only [parenthesised_yields, yields_expect_bind .comma (by decide), yields_bind,
    yields_pure, Prod.mk.injEq]
  constructor
  · rintro ⟨lpar, rpar, next, hlpar, hrpar, rfl, _, _, hfirst, comma, middle, hcomma, rfl, _, _,
      hsecond, ⟨rfl, rfl⟩, rfl⟩
    exact ⟨lpar, comma, rpar, next, middle, hlpar, hcomma, hrpar, rfl, hfirst, hsecond⟩
  · rintro ⟨lpar, comma, rpar, next, middle, hlpar, hcomma, hrpar, rfl, hfirst, hsecond⟩
    exact ⟨lpar, rpar, next, hlpar, hrpar, rfl, a, _, hfirst, comma, middle, hcomma, rfl, b, _,
      hsecond, ⟨rfl, rfl⟩, rfl⟩

theorem typedBinder_yields {stream rest : TokenStream} {name : String} {p : Proposition} :
    typedBinder.Yields stream (name, p) rest ↔
      ∃ tokens, stream = rest.prepend tokens ∧ DerivesTypedBinder tokens name p := by
  unfold typedBinder typedBinderBody
  simp only [yields_expect_bind .lparen (by decide), yields_expect_bind .ident (by decide),
    yields_expect_bind .colon (by decide), yields_expect_bind .rparen (by decide),
    yields_expect_bind .arrow (by decide), yields_bind, yields_pure, Prod.mk.injEq]
  constructor
  · rintro ⟨lpar, _, hlpar, rfl, ident, _, hident, rfl, colon, _, hcolon, rfl, _, _, hp, rpar, _,
      hrpar, rfl, arrow, _, harrow, rfl, ⟨rfl, rfl⟩, rfl⟩
    obtain ⟨domain, rfl, hdomain⟩ := proposition_sound hp
    exact ⟨_, by simp, lpar, ident, colon, rpar, arrow, domain, hlpar, hident, hcolon, hdomain,
      hrpar, harrow, rfl, rfl⟩
  · rintro ⟨_, rfl, lpar, ident, colon, rpar, arrow, domain, hlpar, hident, hcolon, hdomain,
      hrpar, harrow, rfl, rfl⟩
    have hp : proposition.Yields ((rest.prepend [rpar, arrow]).prepend domain) p
        (rest.prepend [rpar, arrow]) := by
      apply hdomain.proposition_yields
      rw [TokenStream.current_prepend_cons, hrpar]
      simp [Level.Stops]
    refine ⟨lpar, rest.prepend (ident :: colon :: (domain ++ [rpar, arrow])), hlpar, by simp,
      ident, rest.prepend (colon :: (domain ++ [rpar, arrow])), hident, by simp,
      colon, rest.prepend (domain ++ [rpar, arrow]), hcolon, by simp, ?_⟩
    rw [← TokenStream.prepend_prepend]
    exact ⟨p, _, hp, rpar, rest.prepend [arrow], hrpar, by simp, arrow, rest, harrow, rfl,
      ⟨rfl, rfl⟩, rfl⟩

theorem afterParenthesis_yields {term : Parser Term} {stream rest : TokenStream} {t : Term} :
    (afterParenthesis term).Yields stream t rest ↔
      (∃ rpar : Token, rpar.kind = .rparen ∧ stream = rest.prepend [rpar] ∧ t = .unit) ∨
      stream.current.kind ≠ .rparen ∧
        ((∃ (l r : Term) (comma rpar : Token) (next : TokenStream), comma.kind = .comma ∧
            rpar.kind = .rparen ∧ term.Yields stream l (next.prepend [comma]) ∧
            term.Yields next r (rest.prepend [rpar]) ∧ t = .pair l r) ∨
          ∃ rpar : Token, rpar.kind = .rparen ∧ term.Yields stream t (rest.prepend [rpar])) := by
  unfold afterParenthesis
  simp only [yields_sees_ite .rparen (by decide), yields_sees_ite .comma (by decide),
    yields_expect_bind .rparen (by decide), yields_bind, yields_pure]
  constructor
  · rintro (⟨rpar, _, hrpar, rfl, rfl, rfl⟩ | ⟨hne, l, _, hl,
      (⟨comma, next, hcomma, rfl, r, _, hr, rpar, _, hrpar, rfl, rfl, rfl⟩ |
        ⟨_, rpar, _, hrpar, rfl, rfl, rfl⟩)⟩)
    · exact Or.inl ⟨rpar, hrpar, rfl, rfl⟩
    · exact Or.inr ⟨hne, Or.inl ⟨l, r, comma, rpar, next, hcomma, hrpar, hl, hr, rfl⟩⟩
    · exact Or.inr ⟨hne, Or.inr ⟨rpar, hrpar, hl⟩⟩
  · rintro (⟨rpar, hrpar, rfl, rfl⟩ | ⟨hne,
      (⟨l, r, comma, rpar, next, hcomma, hrpar, hl, hr, rfl⟩ | ⟨rpar, hrpar, ht⟩)⟩)
    · exact Or.inl ⟨rpar, rest, hrpar, rfl, rfl, rfl⟩
    · exact Or.inr ⟨hne, l, _, hl, Or.inl ⟨comma, next, hcomma, rfl, r, _, hr, rpar, rest, hrpar,
        rfl, rfl, rfl⟩⟩
    · refine Or.inr ⟨hne, t, _, ht, Or.inr ⟨?_, rpar, rest, hrpar, rfl, rfl, rfl⟩⟩
      rw [TokenStream.current_prepend_cons, hrpar]
      decide

/-- The first token decides which simple term is read. -/
theorem simpleOf_yields {term : Parser Term} {token : Token} {stream rest : TokenStream}
    {t : Term} :
    (simpleOf term).Yields (stream.prepend [token]) t rest ↔
      match token.kind with
      | .ident => t = .var token.text ∧ rest = stream
      | .lparen => (afterParenthesis term).Yields stream t rest
      | .fst => ∃ u, (parenthesised term).Yields stream u rest ∧ t = .fst u
      | .snd => ∃ u, (parenthesised term).Yields stream u rest ∧ t = .snd u
      | .left => ∃ u p, (parenthesisedPair term proposition).Yields stream (u, p) rest ∧
          t = .inl u p
      | .right => ∃ p u, (parenthesisedPair proposition term).Yields stream (p, u) rest ∧
          t = .inr p u
      | .absurd => ∃ u p, (parenthesisedPair term proposition).Yields stream (u, p) rest ∧
          t = .absurd u p
      | _ => False := by
  rw [simpleOf, simpleBody, yields_advance_prepend, TokenStream.prepend_nil]
  generalize token.kind = kind
  split
  next =>
    rw [yields_pure]
    exact and_congr eq_comm eq_comm
  next => exact Iff.rfl
  next => exact yields_bind_pure
  next => exact yields_bind_pure
  next => exact (yields_bind_pure (f := fun pair => Term.inl pair.1 pair.2)).trans Prod.exists
  next => exact (yields_bind_pure (f := fun pair => Term.inr pair.1 pair.2)).trans Prod.exists
  next => exact (yields_bind_pure (f := fun pair => Term.absurd pair.1 pair.2)).trans Prod.exists
  next => simp only [not_yields_throw]

/-- The parser of applications: one bound is for the nesting, the other for the arguments. -/
def applicationWithin (fuel count : Nat) : Parser Term :=
  applicationOf (simpleOf (termWithin fuel)) count

/-- The first token decides which term is read. -/
theorem termWithin_succ_yields {fuel : Nat} {token : Token} {stream rest : TokenStream}
    {t : Term} :
    (termWithin (fuel + 1)).Yields (stream.prepend [token]) t rest ↔
      match token.kind with
      | .lambda => ∃ name domain body next, typedBinder.Yields stream (name, domain) next ∧
          (termWithin fuel).Yields next body rest ∧ t = .lam name domain body
      | .case => ∃ (s u v : Term) (x y : String) (ofWord pipe : Token)
          (onLeft inLeft onRight inRight : TokenStream),
          (termWithin fuel).Yields stream s (onLeft.prepend [ofWord]) ∧ ofWord.kind = .of ∧
          binder.Yields onLeft x inLeft ∧
          (termWithin fuel).Yields inLeft u (onRight.prepend [pipe]) ∧ pipe.kind = .pipe ∧
          binder.Yields onRight y inRight ∧ (termWithin fuel).Yields inRight v rest ∧
          t = .cases s x u y v
      | _ => (applicationWithin fuel fuel).Yields (stream.prepend [token]) t rest := by
  rw [termWithin, termBody, yields_peek_bind, TokenStream.current_prepend_cons]
  generalize token.kind = kind
  split
  next =>
    rw [yields_advance_prepend, TokenStream.prepend_nil, yields_bind]
    simp only [Prod.exists, yields_bind, yields_pure]
    constructor
    · rintro ⟨name, domain, next, hbinder, body, _, hbody, rfl, rfl⟩
      exact ⟨name, domain, body, next, hbinder, hbody, rfl⟩
    · rintro ⟨name, domain, body, next, hbinder, hbody, rfl⟩
      exact ⟨name, domain, next, hbinder, body, rest, hbody, rfl, rfl⟩
  next =>
    rw [yields_advance_prepend, TokenStream.prepend_nil, yields_bind]
    simp only [yields_expect_bind .of (by decide), yields_expect_bind .pipe (by decide),
      yields_bind, yields_pure]
    constructor
    · rintro ⟨s, _, hs, ofWord, onLeft, hof, rfl, x, inLeft, hx, u, _, hu, pipe, onRight, hpipe,
        rfl, y, inRight, hy, v, _, hv, rfl, rfl⟩
      exact ⟨s, u, v, x, y, ofWord, pipe, onLeft, inLeft, onRight, inRight, hs, hof, hx, hu,
        hpipe, hy, hv, rfl⟩
    · rintro ⟨s, u, v, x, y, ofWord, pipe, onLeft, inLeft, onRight, inRight, hs, hof, hx, hu,
        hpipe, hy, hv, rfl⟩
      exact ⟨s, _, hs, ofWord, onLeft, hof, rfl, x, inLeft, hx, u, _, hu, pipe, onRight, hpipe,
        rfl, y, inRight, hy, v, rest, hv, rfl, rfl⟩
  next => simp only [applicationWithin]

theorem applyArguments_succ_yields {argument : Parser Term} {count : Nat} {f t : Term}
    {stream rest : TokenStream} :
    (applyArguments argument (count + 1) f).Yields stream t rest ↔
      if stream.current.kind.startsArgument then
        ∃ x next, argument.Yields stream x next ∧
          (applyArguments argument count (.app f x)).Yields next t rest
      else t = f ∧ rest = stream := by
  rw [applyArguments, argumentsBody, yields_peek_bind]
  split
  next => rw [yields_bind]
  next =>
    rw [yields_pure]
    exact and_congr eq_comm eq_comm

/-! ## Parsers read what the grammar derives -/

theorem afterParenthesis_sound {term : Parser Term} (hterm : term.Sound (DerivesTerm .term))
    {lpar : Token} (hlpar : lpar.kind = .lparen) :
    (afterParenthesis term).Sound fun tokens t => DerivesTerm .simple (lpar :: tokens) t := by
  intro stream t rest hyields
  rcases afterParenthesis_yields.mp hyields with ⟨rpar, hrpar, rfl, rfl⟩ | ⟨-, hinner⟩
  · exact ⟨[rpar], rfl, .unit hlpar hrpar⟩
  rcases hinner with ⟨l, r, comma, rpar, next, hcomma, hrpar, hl, hr, rfl⟩ | ⟨rpar, hrpar, ht⟩
  · obtain ⟨ls, rfl, hls⟩ := hterm hl
    obtain ⟨rs, rfl, hrs⟩ := hterm hr
    exact ⟨ls ++ comma :: (rs ++ [rpar]), by simp, .pair hlpar hls hcomma hrs hrpar⟩
  · obtain ⟨tokens, rfl, htokens⟩ := hterm ht
    exact ⟨tokens ++ [rpar], by simp, .parens hlpar htokens hrpar⟩

theorem parenthesised_sound {α : Type} {inner : Parser α} {derives : List Token → α → Prop}
    (hinner : inner.Sound derives) :
    (parenthesised inner).Sound fun tokens a => ∃ (lpar rpar : Token) (ts : List Token),
      lpar.kind = .lparen ∧ derives ts a ∧ rpar.kind = .rparen ∧
      tokens = lpar :: (ts ++ [rpar]) := by
  intro stream a rest hyields
  obtain ⟨lpar, rpar, _, hlpar, hrpar, rfl, ha⟩ := parenthesised_yields.mp hyields
  obtain ⟨ts, rfl, hts⟩ := hinner ha
  exact ⟨_, by simp, lpar, rpar, ts, hlpar, hts, hrpar, rfl⟩

theorem parenthesisedPair_sound {α β : Type} {first : Parser α} {second : Parser β}
    {derives : List Token → α → Prop} {other : List Token → β → Prop}
    (hfirst : first.Sound derives) (hsecond : second.Sound other) :
    (parenthesisedPair first second).Sound fun tokens pair =>
      ∃ (lpar comma rpar : Token) (ts us : List Token), lpar.kind = .lparen ∧
        derives ts pair.1 ∧ comma.kind = .comma ∧ other us pair.2 ∧ rpar.kind = .rparen ∧
        tokens = lpar :: (ts ++ comma :: (us ++ [rpar])) := by
  rintro stream ⟨a, b⟩ rest hyields
  obtain ⟨lpar, comma, rpar, _, _, hlpar, hcomma, hrpar, rfl, ha, hb⟩ :=
    parenthesisedPair_yields.mp hyields
  obtain ⟨ts, rfl, hts⟩ := hfirst ha
  obtain ⟨us, rfl, hus⟩ := hsecond hb
  exact ⟨_, by simp, lpar, comma, rpar, ts, us, hlpar, hts, hcomma, hus, hrpar, rfl⟩

theorem simpleOf_sound {term : Parser Term} (hterm : term.Sound (DerivesTerm .term)) :
    (simpleOf term).Sound (DerivesTerm .simple) := by
  intro stream t rest hyields
  rcases stream.eof_or_prepend with heof | ⟨token, next, rfl⟩
  · rw [simpleOf, simpleBody, yields_advance_bind, heof] at hyields
    exact absurd hyields not_yields_throw
  rw [simpleOf_yields] at hyields
  -- Each kind of first token fixes the form of the rest.
  split at hyields
  next hkind =>
    obtain ⟨rfl, rfl⟩ := hyields
    exact ⟨[token], rfl, .var hkind⟩
  next hkind =>
    obtain ⟨tokens, rfl, ht⟩ := afterParenthesis_sound hterm hkind hyields
    exact ⟨token :: tokens, by simp, ht⟩
  next hkind =>
    obtain ⟨u, hyields, rfl⟩ := hyields
    obtain ⟨_, rfl, lpar, rpar, ts, hlpar, hts, hrpar, rfl⟩ := parenthesised_sound hterm hyields
    exact ⟨_, by simp, .fst hkind hlpar hts hrpar⟩
  next hkind =>
    obtain ⟨u, hyields, rfl⟩ := hyields
    obtain ⟨_, rfl, lpar, rpar, ts, hlpar, hts, hrpar, rfl⟩ := parenthesised_sound hterm hyields
    exact ⟨_, by simp, .snd hkind hlpar hts hrpar⟩
  next hkind =>
    obtain ⟨u, p, hyields, rfl⟩ := hyields
    obtain ⟨_, rfl, lpar, comma, rpar, ts, ps, hlpar, hts, hcomma, hps, hrpar, rfl⟩ :=
      parenthesisedPair_sound hterm proposition_sound hyields
    exact ⟨_, by simp, .inl hkind hlpar hts hcomma hps hrpar⟩
  next hkind =>
    obtain ⟨p, u, hyields, rfl⟩ := hyields
    obtain ⟨_, rfl, lpar, comma, rpar, ps, ts, hlpar, hps, hcomma, hts, hrpar, rfl⟩ :=
      parenthesisedPair_sound proposition_sound hterm hyields
    exact ⟨_, by simp, .inr hkind hlpar hps hcomma hts hrpar⟩
  next hkind =>
    obtain ⟨u, p, hyields, rfl⟩ := hyields
    obtain ⟨_, rfl, lpar, comma, rpar, ts, ps, hlpar, hts, hcomma, hps, hrpar, rfl⟩ :=
      parenthesisedPair_sound hterm proposition_sound hyields
    exact ⟨_, by simp, .absurd hkind hlpar hts hcomma hps hrpar⟩
  next => contradiction

theorem applyArguments_sound {argument : Parser Term}
    (hargument : argument.Sound (DerivesTerm .simple)) (count : Nat) {fs : List Token} {f : Term}
    (hf : DerivesTerm .application fs f) :
    (applyArguments argument count f).Sound
      fun tokens t => DerivesTerm .application (fs ++ tokens) t := by
  induction count generalizing fs f with
  | zero =>
      intro stream t rest hyields
      obtain ⟨rfl, rfl⟩ := yields_pure.mp hyields
      exact ⟨[], rfl, by simpa using hf⟩
  | succ count ih =>
      intro stream t rest hyields
      rw [applyArguments_succ_yields] at hyields
      split at hyields
      next =>
        obtain ⟨x, next, hx, hmore⟩ := hyields
        obtain ⟨xs, rfl, hxs⟩ := hargument hx
        obtain ⟨tokens, rfl, ht⟩ := ih (.argument hf hxs) hmore
        exact ⟨xs ++ tokens, by simp, by simpa using ht⟩
      next =>
        obtain ⟨rfl, rfl⟩ := hyields
        exact ⟨[], rfl, by simpa using hf⟩

theorem applicationWithin_sound {fuel : Nat}
    (hterm : (termWithin fuel).Sound (DerivesTerm .term)) (count : Nat) :
    (applicationWithin fuel count).Sound (DerivesTerm .application) := by
  intro stream t rest hyields
  obtain ⟨f, next, hf, hmore⟩ := yields_bind.mp hyields
  obtain ⟨fs, rfl, hfs⟩ := simpleOf_sound hterm hf
  obtain ⟨tokens, rfl, ht⟩ :=
    applyArguments_sound (simpleOf_sound hterm) count (.head hfs) hmore
  exact ⟨fs ++ tokens, by simp, ht⟩

theorem termWithin_sound (fuel : Nat) : (termWithin fuel).Sound (DerivesTerm .term) := by
  induction fuel with
  | zero =>
      intro stream t rest hyields
      exact absurd hyields not_yields_fail
  | succ fuel ih =>
      intro stream t rest hyields
      rcases stream.eof_or_prepend with heof | ⟨token, next, rfl⟩
      · rw [termWithin, termBody, yields_peek_bind, heof] at hyields
        obtain ⟨tokens, rfl, ht⟩ := applicationWithin_sound ih fuel hyields
        exact ⟨tokens, rfl, .application ht⟩
      rw [termWithin_succ_yields] at hyields
      split at hyields
      next hkind =>
        obtain ⟨name, domain, body, _, hbinder, hbody, rfl⟩ := hyields
        obtain ⟨bs, rfl, hbs⟩ := typedBinder_yields.mp hbinder
        obtain ⟨tokens, rfl, htokens⟩ := ih hbody
        exact ⟨token :: (bs ++ tokens), by simp, .lam hkind hbs htokens⟩
      next hkind =>
        obtain ⟨s, u, v, x, y, ofWord, pipe, _, _, _, _, hs, hof, hx, hu, hpipe, hy, hv, rfl⟩ :=
          hyields
        obtain ⟨vs, rfl, hvs⟩ := ih hv
        obtain ⟨ys, rfl, hys⟩ := binder_yields.mp hy
        obtain ⟨us, rfl, hus⟩ := ih hu
        obtain ⟨xs, rfl, hxs⟩ := binder_yields.mp hx
        obtain ⟨ss, rfl, hss⟩ := ih hs
        exact ⟨token :: (ss ++ ofWord :: (xs ++ (us ++ pipe :: (ys ++ vs)))), by simp,
          .cases hkind hss hof hxs hus hpipe hys hvs⟩
      next =>
        obtain ⟨tokens, hstream, ht⟩ := applicationWithin_sound ih fuel hyields
        exact ⟨tokens, hstream, .application ht⟩

theorem term_sound : term.Sound (DerivesTerm .term) := by
  intro stream t rest hyields
  rw [term, yields_bounded] at hyields
  exact termWithin_sound _ hyields

/-! ## Parsers read all that the grammar derives -/

/-- A token with which a term of the level can begin. -/
def TermLevel.Begins (kind : Token.Kind) : TermLevel → Prop
  | .term => kind = .lambda ∨ kind = .case ∨ kind.startsArgument = true
  | .application => kind.startsArgument = true
  | .simple => kind.startsArgument = true

theorem DerivesTerm.exists_begins {level : TermLevel} {tokens : List Token} {t : Term}
    (hderives : DerivesTerm level tokens t) :
    ∃ token more, tokens = token :: more ∧ level.Begins token.kind := by
  induction hderives with
  | lam hword => exact ⟨_, _, rfl, Or.inl hword⟩
  | cases hword => exact ⟨_, _, rfl, Or.inr (Or.inl hword)⟩
  | application _ ih =>
      obtain ⟨token, more, htokens, hbegins⟩ := ih
      exact ⟨token, more, htokens, Or.inr (Or.inr hbegins)⟩
  | head _ ih => exact ih
  | @argument fs xs f x _ _ ih _ =>
      obtain ⟨token, more, rfl, hbegins⟩ := ih
      exact ⟨token, more ++ xs, rfl, hbegins⟩
  | var hword => exact ⟨_, _, rfl, by rw [TermLevel.Begins, hword]; rfl⟩
  | unit hword => exact ⟨_, _, rfl, by rw [TermLevel.Begins, hword]; rfl⟩
  | parens hword => exact ⟨_, _, rfl, by rw [TermLevel.Begins, hword]; rfl⟩
  | pair hword => exact ⟨_, _, rfl, by rw [TermLevel.Begins, hword]; rfl⟩
  | fst hword => exact ⟨_, _, rfl, by rw [TermLevel.Begins, hword]; rfl⟩
  | snd hword => exact ⟨_, _, rfl, by rw [TermLevel.Begins, hword]; rfl⟩
  | inl hword => exact ⟨_, _, rfl, by rw [TermLevel.Begins, hword]; rfl⟩
  | inr hword => exact ⟨_, _, rfl, by rw [TermLevel.Begins, hword]; rfl⟩
  | absurd hword => exact ⟨_, _, rfl, by rw [TermLevel.Begins, hword]; rfl⟩

theorem DerivesTerm.length_pos {level : TermLevel} {tokens : List Token} {t : Term}
    (hderives : DerivesTerm level tokens t) : 0 < tokens.length := by
  obtain ⟨token, more, rfl, -⟩ := hderives.exists_begins
  simp

/-- No term begins with a closing parenthesis. -/
theorem DerivesTerm.current_ne_rparen {tokens : List Token} {t : Term}
    (hderives : DerivesTerm .term tokens t) (rest : TokenStream) :
    (rest.prepend tokens).current.kind ≠ .rparen := by
  obtain ⟨token, more, rfl, hbegins⟩ := hderives.exists_begins
  rw [TokenStream.current_prepend_cons]
  intro hkind
  rw [hkind] at hbegins
  simp [TermLevel.Begins, Token.Kind.startsArgument] at hbegins

/-- An application ends in front of a token that begins no argument. -/
theorem applyArguments_yields_self {argument : Parser Term} {rest : TokenStream}
    (hrest : rest.current.kind.startsArgument = false) (count : Nat) (f : Term) :
    (applyArguments argument count f).Yields rest f rest := by
  cases count with
  | zero => exact yields_pure.mpr ⟨rfl, rfl⟩
  | succ count =>
      rw [applyArguments_succ_yields, hrest]
      exact ⟨rfl, rfl⟩

/-- The parsers read a term of a level from the front of a stream, if their bounds are not less
than the number of its tokens. An application goes on with all the arguments that follow. -/
def TermLevel.Reads (tokens : List Token) (t : Term) : TermLevel → Prop
  | .term => ∀ fuel rest, tokens.length ≤ fuel → rest.current.kind.startsArgument = false →
      (termWithin fuel).Yields (rest.prepend tokens) t rest
  | .application => ∃ arguments < tokens.length, ∀ fuel count rest u final,
      tokens.length ≤ fuel + 1 →
      (applyArguments (simpleOf (termWithin fuel)) count t).Yields rest u final →
      (applicationWithin fuel (arguments + count)).Yields (rest.prepend tokens) u final
  | .simple => ∀ fuel rest, tokens.length ≤ fuel + 1 →
      (simpleOf (termWithin fuel)).Yields (rest.prepend tokens) t rest

/-- A term is read in front of a token that begins no argument. -/
theorem TermLevel.Reads.before {tokens : List Token} {t : Term} (ht : term.Reads tokens t)
    {token : Token} {kind : Token.Kind} (htoken : token.kind = kind)
    (hkind : kind.startsArgument = false) {fuel : Nat} (hfuel : tokens.length ≤ fuel)
    (rest : TokenStream) :
    (termWithin fuel).Yields ((rest.prepend [token]).prepend tokens) t (rest.prepend [token]) := by
  apply ht fuel _ hfuel
  rw [TokenStream.current_prepend_cons, htoken, hkind]

theorem DerivesProposition.yields_before {tokens : List Token} {p : Proposition}
    (hp : DerivesProposition (.joined .implies) tokens p) {token : Token} {kind : Token.Kind}
    (htoken : token.kind = kind) (hkind : (Level.joined .implies).Stops kind)
    (rest : TokenStream) :
    proposition.Yields ((rest.prepend [token]).prepend tokens) p (rest.prepend [token]) := by
  apply hp.proposition_yields
  rw [TokenStream.current_prepend_cons, htoken]
  exact hkind

theorem reads_lam {word : Token} {binder tokens : List Token} {name : String}
    {domain : Proposition} {body : Term} (hword : word.kind = .lambda)
    (hbinder : DerivesTypedBinder binder name domain) (hbody : TermLevel.term.Reads tokens body) :
    TermLevel.term.Reads (word :: (binder ++ tokens)) (.lam name domain body) := by
  intro fuel rest hfuel hrest
  simp only [List.length_cons, List.length_append] at hfuel
  obtain ⟨fuel, rfl⟩ : ∃ n, fuel = n + 1 := ⟨fuel - 1, by omega⟩
  rw [TokenStream.prepend_cons, termWithin_succ_yields, hword]
  refine ⟨name, domain, body, rest.prepend tokens, ?_, hbody fuel rest (by omega) hrest, rfl⟩
  exact typedBinder_yields.mpr ⟨binder, by simp, hbinder⟩

theorem reads_cases {word ofWord pipe : Token} {ts xs us ys vs : List Token} {t u v : Term}
    {x y : String} (hword : word.kind = .case) (ht : TermLevel.term.Reads ts t)
    (hof : ofWord.kind = .of) (hx : DerivesBinder xs x) (hu : TermLevel.term.Reads us u)
    (hpipe : pipe.kind = .pipe) (hy : DerivesBinder ys y) (hv : TermLevel.term.Reads vs v) :
    TermLevel.term.Reads (word :: (ts ++ ofWord :: (xs ++ (us ++ pipe :: (ys ++ vs)))))
      (.cases t x u y v) := by
  intro fuel rest hfuel hrest
  simp only [List.length_cons, List.length_append] at hfuel
  obtain ⟨fuel, rfl⟩ : ∃ n, fuel = n + 1 := ⟨fuel - 1, by omega⟩
  rw [TokenStream.prepend_cons, termWithin_succ_yields, hword, ← TokenStream.prepend_prepend,
    TokenStream.prepend_cons _ ofWord]
  -- The scrutinee and the left branch end in front of words that begin no argument.
  refine ⟨t, u, v, x, y, ofWord, pipe, rest.prepend (xs ++ (us ++ pipe :: (ys ++ vs))),
    rest.prepend (us ++ pipe :: (ys ++ vs)), rest.prepend (ys ++ vs), rest.prepend vs,
    ht.before hof rfl (by omega) _, hof, ?_, ?_, hpipe, ?_, hv fuel rest (by omega) hrest, rfl⟩
  · exact binder_yields.mpr ⟨xs, by simp, hx⟩
  · rw [← TokenStream.prepend_prepend, TokenStream.prepend_cons _ pipe]
    exact hu.before hpipe rfl (by omega) _
  · exact binder_yields.mpr ⟨ys, by simp, hy⟩

/-- What begins with an argument is read as an application. -/
theorem termWithin_succ_yields_of_startsArgument {fuel : Nat} {token : Token}
    {stream rest : TokenStream} {t : Term} (htoken : token.kind.startsArgument = true) :
    (termWithin (fuel + 1)).Yields (stream.prepend [token]) t rest ↔
      (applicationWithin fuel fuel).Yields (stream.prepend [token]) t rest := by
  rw [termWithin_succ_yields]
  split
  next hkind =>
    rw [hkind] at htoken
    contradiction
  next hkind =>
    rw [hkind] at htoken
    contradiction
  next => exact Iff.rfl

theorem reads_application {tokens : List Token} {t : Term}
    (hderives : DerivesTerm .application tokens t)
    (ht : TermLevel.application.Reads tokens t) : TermLevel.term.Reads tokens t := by
  intro fuel rest hfuel hrest
  obtain ⟨token, more, rfl, hbegins⟩ := hderives.exists_begins
  rw [List.length_cons] at hfuel
  obtain ⟨fuel, rfl⟩ : ∃ n, fuel = n + 1 := ⟨fuel - 1, by omega⟩
  obtain ⟨arguments, hlt, hreads⟩ := ht
  rw [List.length_cons] at hlt
  -- The bound on the arguments is met, since each argument has a token.
  have hyields := hreads fuel (fuel - arguments) rest t rest hfuel
    (applyArguments_yields_self hrest _ t)
  rw [Nat.add_sub_cancel' (by omega), TokenStream.prepend_cons] at hyields
  rw [TokenStream.prepend_cons]
  exact (termWithin_succ_yields_of_startsArgument hbegins).mpr hyields

theorem reads_argument {fs xs : List Token} {f x : Term}
    (hf : TermLevel.application.Reads fs f) (hderives : DerivesTerm .simple xs x)
    (hx : TermLevel.simple.Reads xs x) : TermLevel.application.Reads (fs ++ xs) (.app f x) := by
  obtain ⟨arguments, hlt, hreads⟩ := hf
  obtain ⟨token, more, rfl, hbegins⟩ := hderives.exists_begins
  rw [TermLevel.Begins] at hbegins
  simp only [TermLevel.Reads, List.length_append, List.length_cons] at hx ⊢
  refine ⟨arguments + 1, by omega, ?_⟩
  intro fuel count rest u final hfuel happly
  -- The function is read first, and its argument is the first one that follows.
  rw [← TokenStream.prepend_prepend, Nat.add_assoc, Nat.add_comm 1 count]
  apply hreads fuel (count + 1) _ u final (by omega)
  rw [applyArguments_succ_yields, TokenStream.current_prepend_cons, if_pos hbegins]
  exact ⟨x, rest, hx fuel rest (by omega), happly⟩

theorem reads_parens {lpar rpar : Token} {tokens : List Token} {t : Term}
    (hlpar : lpar.kind = .lparen) (hderives : DerivesTerm .term tokens t)
    (ht : TermLevel.term.Reads tokens t) (hrpar : rpar.kind = .rparen) :
    TermLevel.simple.Reads (lpar :: (tokens ++ [rpar])) t := by
  intro fuel rest hfuel
  simp only [List.length_cons, List.length_append] at hfuel
  rw [TokenStream.prepend_cons, simpleOf_yields, hlpar, ← TokenStream.prepend_prepend]
  refine afterParenthesis_yields.mpr (Or.inr ⟨hderives.current_ne_rparen _, Or.inr ?_⟩)
  exact ⟨rpar, hrpar, ht.before hrpar rfl (by omega) rest⟩

theorem reads_pair {lpar comma rpar : Token} {ls rs : List Token} {l r : Term}
    (hlpar : lpar.kind = .lparen) (hderives : DerivesTerm .term ls l)
    (hl : TermLevel.term.Reads ls l) (hcomma : comma.kind = .comma)
    (hr : TermLevel.term.Reads rs r) (hrpar : rpar.kind = .rparen) :
    TermLevel.simple.Reads (lpar :: (ls ++ comma :: (rs ++ [rpar]))) (.pair l r) := by
  intro fuel rest hfuel
  simp only [List.length_cons, List.length_append] at hfuel
  rw [TokenStream.prepend_cons, simpleOf_yields, hlpar, ← TokenStream.prepend_prepend,
    TokenStream.prepend_cons _ comma, ← TokenStream.prepend_prepend]
  refine afterParenthesis_yields.mpr (Or.inr ⟨hderives.current_ne_rparen _, Or.inl ?_⟩)
  exact ⟨l, r, comma, rpar, _, hcomma, hrpar, hl.before hcomma rfl (by omega) _,
    hr.before hrpar rfl (by omega) rest, rfl⟩

/-- What stands between parentheses is read if it is read in front of the closing one. -/
theorem parenthesised_yields_of_inner {α : Type} {inner : Parser α} {lpar rpar : Token}
    {tokens : List Token} {rest : TokenStream} {a : α} (hlpar : lpar.kind = .lparen)
    (hrpar : rpar.kind = .rparen)
    (hinner : inner.Yields ((rest.prepend [rpar]).prepend tokens) a (rest.prepend [rpar])) :
    (parenthesised inner).Yields (rest.prepend (lpar :: (tokens ++ [rpar]))) a rest :=
  parenthesised_yields.mpr ⟨lpar, rpar, _, hlpar, hrpar, by simp, hinner⟩

theorem parenthesisedPair_yields_of_inner {α β : Type} {first : Parser α} {second : Parser β}
    {lpar comma rpar : Token} {as bs : List Token} {rest : TokenStream} {a : α} {b : β}
    (hlpar : lpar.kind = .lparen) (hcomma : comma.kind = .comma) (hrpar : rpar.kind = .rparen)
    (hfirst : ∀ next : TokenStream,
      first.Yields ((next.prepend [comma]).prepend as) a (next.prepend [comma]))
    (hsecond : second.Yields ((rest.prepend [rpar]).prepend bs) b (rest.prepend [rpar])) :
    (parenthesisedPair first second).Yields (rest.prepend (lpar :: (as ++ comma :: (bs ++ [rpar]))))
      (a, b) rest :=
  parenthesisedPair_yields.mpr
    ⟨lpar, comma, rpar, _, _, hlpar, hcomma, hrpar, by simp, hfirst _, hsecond⟩

/-- Every derived term is read. -/
theorem DerivesTerm.reads {level : TermLevel} {tokens : List Token} {t : Term}
    (hderives : DerivesTerm level tokens t) : level.Reads tokens t := by
  have hstopsComma : (Level.joined .implies).Stops .comma := by simp [Level.Stops]
  have hstopsRpar : (Level.joined .implies).Stops .rparen := by simp [Level.Stops]
  induction hderives with
  | lam hword hbinder _ ih => exact reads_lam hword hbinder ih
  | cases hword _ hof hx _ hpipe hy _ iht ihu ihv =>
      exact reads_cases hword iht hof hx ihu hpipe hy ihv
  | application ht ih => exact reads_application ht ih
  | @head tokens t ht ih =>
      refine ⟨0, ht.length_pos, ?_⟩
      intro fuel count rest u final hfuel happly
      rw [Nat.zero_add]
      exact yields_bind.mpr ⟨t, rest, ih fuel rest hfuel, happly⟩
  | argument _ hx ihf ihx => exact reads_argument ihf hx ihx
  | var hident =>
      intro fuel rest _
      rw [simpleOf_yields, hident]
      exact ⟨rfl, rfl⟩
  | unit hlpar hrpar =>
      intro fuel rest _
      rw [TokenStream.prepend_cons, simpleOf_yields, hlpar]
      exact afterParenthesis_yields.mpr (Or.inl ⟨_, hrpar, rfl, rfl⟩)
  | parens hlpar ht hrpar ih => exact reads_parens hlpar ht ih hrpar
  | pair hlpar hl hcomma _ hrpar ihl ihr => exact reads_pair hlpar hl ihl hcomma ihr hrpar
  | @fst word lpar rpar tokens t hword hlpar _ hrpar ih =>
      intro fuel rest hfuel
      simp only [List.length_cons, List.length_append] at hfuel
      rw [TokenStream.prepend_cons, simpleOf_yields, hword]
      exact ⟨t, parenthesised_yields_of_inner hlpar hrpar
        (ih.before hrpar rfl (by omega) rest), rfl⟩
  | @snd word lpar rpar tokens t hword hlpar _ hrpar ih =>
      intro fuel rest hfuel
      simp only [List.length_cons, List.length_append] at hfuel
      rw [TokenStream.prepend_cons, simpleOf_yields, hword]
      exact ⟨t, parenthesised_yields_of_inner hlpar hrpar
        (ih.before hrpar rfl (by omega) rest), rfl⟩
  | @inl word lpar comma rpar ts ps t p hword hlpar _ hcomma hp hrpar ih =>
      intro fuel rest hfuel
      simp only [List.length_cons, List.length_append] at hfuel
      rw [TokenStream.prepend_cons, simpleOf_yields, hword]
      exact ⟨t, p, parenthesisedPair_yields_of_inner hlpar hcomma hrpar
        (ih.before hcomma rfl (by omega)) (hp.yields_before hrpar hstopsRpar rest), rfl⟩
  | @inr word lpar comma rpar ts ps t p hword hlpar hp hcomma _ hrpar ih =>
      intro fuel rest hfuel
      simp only [List.length_cons, List.length_append] at hfuel
      rw [TokenStream.prepend_cons, simpleOf_yields, hword]
      exact ⟨p, t, parenthesisedPair_yields_of_inner hlpar hcomma hrpar
        (hp.yields_before hcomma hstopsComma) (ih.before hrpar rfl (by omega) rest), rfl⟩
  | @absurd word lpar comma rpar ts ps t p hword hlpar _ hcomma hp hrpar ih =>
      intro fuel rest hfuel
      simp only [List.length_cons, List.length_append] at hfuel
      rw [TokenStream.prepend_cons, simpleOf_yields, hword]
      exact ⟨t, p, parenthesisedPair_yields_of_inner hlpar hcomma hrpar
        (ih.before hcomma rfl (by omega)) (hp.yields_before hrpar hstopsRpar rest), rfl⟩

theorem DerivesTerm.term_yields {tokens : List Token} {t : Term}
    (hderives : DerivesTerm .term tokens t) {rest : TokenStream}
    (hrest : rest.current.kind.startsArgument = false) :
    term.Yields (rest.prepend tokens) t rest := by
  rw [term, yields_bounded, TokenStream.length_prepend]
  exact hderives.reads _ _ (by omega) hrest

/-! ## Unambiguity -/

theorem DerivesTerm.to_term {level : TermLevel} {tokens : List Token} {t : Term}
    (hderives : DerivesTerm level tokens t) : DerivesTerm .term tokens t := by
  cases level with
  | term => exact hderives
  | application => exact .application hderives
  | simple => exact .application (.head hderives)

/-- Tokens make up at most one term, since the parser reads each term that they make up. -/
theorem DerivesTerm.unique {level : TermLevel} {tokens : List Token} {t u : Term}
    (ht : DerivesTerm level tokens t) (hu : DerivesTerm level tokens u) : t = u := by
  -- Behind the tokens the text ends, so that nothing can continue them.
  let ended : TokenStream := ⟨[], 0⟩
  have hreadT : (termWithin tokens.length).Yields (ended.prepend tokens) t ended :=
    ht.to_term.reads tokens.length ended le_rfl rfl
  have hreadU : (termWithin tokens.length).Yields (ended.prepend tokens) u ended :=
    hu.to_term.reads tokens.length ended le_rfl rfl
  exact hreadT.unique hreadU

end Sequitur.Grammar

namespace Sequitur

open Grammar

/-- A text is read as a term exactly if it has tokens and the grammar makes the term of them. -/
theorem Term.parse_eq_ok_iff (text : String) (t : Term) :
    Term.parse text = .ok t ↔
      ∃ stream, TokenStream.ofText text = .ok stream ∧ DerivesTerm .term stream.tokens t := by
  apply Parser.read_eq_ok_iff_derives term_sound
  intro tokens t rest hderives heof
  apply hderives.term_yields
  rw [heof]
  rfl

/-- The grammar of terms is exactly what is read, and it is unambiguous: a text is read as a term if
and only if it has tokens and these derive the term, and no tokens derive two terms of a level. -/
theorem term_grammar_exact :
    (∀ (text : String) (t : Term), Term.parse text = .ok t ↔
      ∃ stream, TokenStream.ofText text = .ok stream ∧ DerivesTerm .term stream.tokens t) ∧
    ∀ (level : TermLevel) (tokens : List Token) (t u : Term),
      DerivesTerm level tokens t → DerivesTerm level tokens u → t = u := by
  refine ⟨Term.parse_eq_ok_iff, ?_⟩
  intro level tokens t u ht hu
  exact ht.unique hu

/-- Two case distinctions, the inner one in the left branch of the outer one: each bar goes to the
distinction that was opened last, and the last branch takes an application as a whole. -/
theorem term_grammar_exact_nested :
    Term.parse "case a of x -> case b of y -> y | z -> f z x | w -> w" =
        .ok (.cases (.var "a") "x"
          (.cases (.var "b") "y" (.var "y") "z" (.app (.app (.var "f") (.var "z")) (.var "x")))
          "w" (.var "w")) ∧
      ∃ stream,
        TokenStream.ofText "case a of x -> case b of y -> y | z -> f z x | w -> w" =
          .ok stream ∧
        ∀ u, DerivesTerm .term stream.tokens u →
          u = .cases (.var "a") "x"
            (.cases (.var "b") "y" (.var "y") "z" (.app (.app (.var "f") (.var "z")) (.var "x")))
            "w" (.var "w") := by
  have hparse : Term.parse "case a of x -> case b of y -> y | z -> f z x | w -> w" =
      .ok (.cases (.var "a") "x"
        (.cases (.var "b") "y" (.var "y") "z" (.app (.app (.var "f") (.var "z")) (.var "x")))
        "w" (.var "w")) := by
    cbv
  obtain ⟨stream, hstream, hderives⟩ := (term_grammar_exact.1 _ _).mp hparse
  refine ⟨hparse, stream, hstream, ?_⟩
  intro u hu
  exact term_grammar_exact.2 _ _ _ _ hu hderives

end Sequitur
