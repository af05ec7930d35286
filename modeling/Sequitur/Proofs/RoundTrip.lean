import Sequitur.Printer
import Sequitur.Proofs.Grammar.Term
import Sequitur.Proofs.Names
import Sequitur.Proofs.Spelling

/-! # Printing and reading back

What is printed reads back as the same proposition or term exactly if all of
its names are identifiers. Reading yields no other names, whatever the text,
so that printing loses nothing of what was read. An identifier by itself is
read as one token, as a variable and as an atom of that name, and it is the
only text that is.
-/

namespace Sequitur

open Grammar

namespace Grammar

/-! ## Reading yields identifiers only -/

theorem DerivesProposition.writable {level : Level} {tokens : List Token} {p : Proposition}
    (hderives : DerivesProposition level tokens p)
    (hspelled : ∀ token ∈ tokens, token.WellSpelled) : p.Writable := by
  induction hderives with
  | single _ ih => exact ih hspelled
  | @join connective _ _ _ _ _ _ _ _ iha ihb =>
      simp only [List.forall_mem_append, List.forall_mem_cons] at hspelled
      obtain ⟨hleft, -, hright⟩ := hspelled
      cases connective <;> simpa [Connective.join] using ⟨iha hleft, ihb hright⟩
  | negation _ _ ih =>
      simpa [Proposition.negation] using ih (List.forall_mem_cons.mp hspelled).2
  | atom hname => simpa using (hspelled _ (List.mem_singleton_self _)).2 hname
  | truth => exact Proposition.writable_truth
  | falsity => exact Proposition.writable_falsity
  | parens _ _ _ ih =>
      simp only [List.forall_mem_append, List.forall_mem_cons] at hspelled
      exact ih hspelled.2.1

theorem DerivesBinder.isIdentifier_name {tokens : List Token} {name : String}
    (hbinder : DerivesBinder tokens name) (hspelled : ∀ token ∈ tokens, token.WellSpelled) :
    isIdentifier name = true := by
  obtain ⟨ident, arrow, hident, -, rfl, rfl⟩ := hbinder
  exact (hspelled ident (by simp)).2 hident

theorem DerivesTypedBinder.writable {tokens : List Token} {name : String} {p : Proposition}
    (hbinder : DerivesTypedBinder tokens name p)
    (hspelled : ∀ token ∈ tokens, token.WellSpelled) :
    isIdentifier name = true ∧ p.Writable := by
  obtain ⟨_, ident, _, _, _, domain, -, hident, -, hdomain, -, -, rfl, rfl⟩ := hbinder
  simp only [List.forall_mem_append, List.forall_mem_cons] at hspelled
  exact ⟨hspelled.2.1.2 hident, hdomain.writable hspelled.2.2.2.1⟩

theorem DerivesTerm.writable {level : TermLevel} {tokens : List Token} {t : Term}
    (hderives : DerivesTerm level tokens t)
    (hspelled : ∀ token ∈ tokens, token.WellSpelled) : t.Writable := by
  induction hderives with
  | lam _ hbinder _ ih =>
      simp only [List.forall_mem_append, List.forall_mem_cons] at hspelled
      obtain ⟨hname, hdomain⟩ := hbinder.writable hspelled.2.1
      simp [hname, hdomain, ih hspelled.2.2]
  | cases _ _ _ hx _ _ hy _ iht ihu ihv =>
      simp only [List.forall_mem_append, List.forall_mem_cons] at hspelled
      obtain ⟨-, ht, -, hxs, hu, -, hys, hv⟩ := hspelled
      simp [iht ht, hx.isIdentifier_name hxs, ihu hu, hy.isIdentifier_name hys, ihv hv]
  | application _ ih => exact ih hspelled
  | head _ ih => exact ih hspelled
  | argument _ _ ihf ihx =>
      rw [List.forall_mem_append] at hspelled
      simp [ihf hspelled.1, ihx hspelled.2]
  | var hident => simpa using (hspelled _ (List.mem_singleton_self _)).2 hident
  | unit => exact Term.writable_unit
  | parens _ _ _ ih =>
      simp only [List.forall_mem_append, List.forall_mem_cons] at hspelled
      exact ih hspelled.2.1
  | pair _ _ _ _ _ ihl ihr =>
      simp only [List.forall_mem_append, List.forall_mem_cons] at hspelled
      simp [ihl hspelled.2.1, ihr hspelled.2.2.2.1]
  | fst _ _ _ _ ih =>
      simp only [List.forall_mem_append, List.forall_mem_cons] at hspelled
      exact ih hspelled.2.2.1
  | snd _ _ _ _ ih =>
      simp only [List.forall_mem_append, List.forall_mem_cons] at hspelled
      exact ih hspelled.2.2.1
  | inl _ _ _ _ hp _ ih =>
      simp only [List.forall_mem_append, List.forall_mem_cons] at hspelled
      simp [ih hspelled.2.2.1, hp.writable hspelled.2.2.2.2.1]
  | inr _ _ hp _ _ _ ih =>
      simp only [List.forall_mem_append, List.forall_mem_cons] at hspelled
      simp [hp.writable hspelled.2.2.1, ih hspelled.2.2.2.2.1]
  | absurd _ _ _ _ hp _ ih =>
      simp only [List.forall_mem_append, List.forall_mem_cons] at hspelled
      simp [ih hspelled.2.2.1, hp.writable hspelled.2.2.2.2.1]

end Grammar

theorem Proposition.writable_of_parse {text : String} {p : Proposition}
    (hparse : Proposition.parse text = .ok p) : p.Writable := by
  obtain ⟨stream, hstream, hderives⟩ := (Proposition.parse_eq_ok_iff text p).mp hparse
  exact hderives.writable (TokenStream.wellSpelled_of_ofText hstream)

theorem Term.writable_of_parse {text : String} {t : Term} (hparse : Term.parse text = .ok t) :
    t.Writable := by
  obtain ⟨stream, hstream, hderives⟩ := (Term.parse_eq_ok_iff text t).mp hparse
  exact hderives.writable (TokenStream.wellSpelled_of_ofText hstream)

/-! ## Printing writes what the grammar derives -/

namespace Grammar

/-- The level of a printed proposition: a nested one is an operand of every connective. -/
def Level.printed (nested : Bool) : Level :=
  if nested then .operand else .joined .implies

/-- The level of a printed term. -/
def TermLevel.printed (nested : Bool) : TermLevel :=
  if nested then .simple else .term

/-- The spelling that a charset chooses for a connective. -/
def Connective.glyph (glyphs : Glyphs) : Connective → String
  | .implies => glyphs.implies
  | .or => glyphs.or
  | .and => glyphs.and

theorem DerivesTerm.of_simple {tokens : List Token} {t : Term}
    (hderives : DerivesTerm .simple tokens t) (level : TermLevel) :
    DerivesTerm level tokens t := by
  cases level with
  | simple => exact hderives
  | application => exact .head hderives
  | term => exact .application (.head hderives)

end Grammar

/-- The tokens that make up a proposition at a level. -/
def Proposition.tokens (level : Level) (p : Proposition) : Language Token :=
  {tokens | DerivesProposition level tokens p}

/-- The tokens that make up a term at a level. -/
def Term.tokens (level : TermLevel) (t : Term) : Language Token :=
  {tokens | DerivesTerm level tokens t}

theorem Proposition.mem_tokens {level : Level} {p : Proposition} {tokens : List Token} :
    tokens ∈ p.tokens level ↔ DerivesProposition level tokens p :=
  Iff.rfl

theorem Term.mem_tokens {level : TermLevel} {t : Term} {tokens : List Token} :
    tokens ∈ t.tokens level ↔ DerivesTerm level tokens t :=
  Iff.rfl

/-- Parentheses around a printed proposition, if it is nested. -/
theorem Proposition.writes_enclose {text : String} {p : Proposition}
    (hwrites : Writes text (p.tokens (.joined .implies))) (nested : Bool) :
    Writes (enclose nested text) (p.tokens (.printed nested)) := by
  cases nested with
  | false => exact hwrites
  | true =>
      have hmark : Mark "(" [.lparen] := ⟨rfl, by decide, by decide⟩
      refine (hwrites.closed_by_rparen hmark).mono ?_
      simp only [Language.mem_mul, mem_ofKinds_singleton]
      rintro _ ⟨_, ⟨_, ⟨lpar, hlpar, rfl⟩, tokens, hp, rfl⟩, _, ⟨rpar, hrpar, rfl⟩, rfl⟩
      exact .parens hlpar hp hrpar

/-- A printed connective between printed operands. -/
theorem Proposition.writes_join (charset : Charset) (connective : Connective)
    {a b : Proposition} (ha : Writes (a.render charset.glyphs true) (a.tokens .operand))
    (hb : Writes (b.render charset.glyphs true) (b.tokens .operand)) (nested : Bool) :
    Writes ((connective.join a b).render charset.glyphs nested)
      ((connective.join a b).tokens (.printed nested)) := by
  have hrender : (connective.join a b).render charset.glyphs nested =
      enclose nested (a.render charset.glyphs true ++
        (" " ++ connective.glyph charset.glyphs ++ " ") ++ b.render charset.glyphs true) := by
    cases connective <;> simp [Connective.join, Connective.glyph, render, String.append_assoc]
  have hglue : Glue (" " ++ connective.glyph charset.glyphs ++ " ") [connective.kind] := by
    cases charset <;> cases connective <;> exact ⟨rfl, by decide, by decide, by decide⟩
  rw [hrender]
  apply writes_enclose
  refine (ha.glued hglue hb).mono ?_
  simp only [Language.mem_mul, mem_ofKinds_singleton]
  rintro _ ⟨_, ⟨left, ha, _, ⟨op, hop, rfl⟩, rfl⟩, right, hb, rfl⟩
  rw [List.append_assoc]
  exact (DerivesProposition.join (ha.of_operand _) hop (hb.of_operand _)).of_joined

/-- The text of a writable proposition is made up of tokens from which the grammar makes the
proposition. -/
theorem Proposition.writes_render (charset : Charset) {p : Proposition} (hp : p.Writable)
    (nested : Bool) : Writes (p.render charset.glyphs nested) (p.tokens (.printed nested)) := by
  induction p generalizing nested with
  | atom name =>
      refine (Writes.of_isIdentifier ((writable_atom name).mp hp)).mono ?_
      rintro _ ⟨token, hident, rfl, rfl⟩
      exact (DerivesProposition.atom hident).of_operand _
  | truth =>
      have hwrites : Writes charset.glyphs.truth (ofKinds [.truth]) := by
        cases charset <;> exact ⟨.of_ofText rfl, by decide, by decide⟩
      refine hwrites.mono ?_
      intro tokens htokens
      obtain ⟨token, htoken, rfl⟩ := mem_ofKinds_singleton.mp htokens
      exact (DerivesProposition.truth htoken).of_operand _
  | falsity =>
      have hwrites : Writes charset.glyphs.falsity (ofKinds [.falsity]) := by
        cases charset <;> exact ⟨.of_ofText rfl, by decide, by decide⟩
      refine hwrites.mono ?_
      intro tokens htokens
      obtain ⟨token, htoken, rfl⟩ := mem_ofKinds_singleton.mp htokens
      exact (DerivesProposition.falsity htoken).of_operand _
  | implies a b iha ihb =>
      obtain ⟨ha, hb⟩ := (writable_implies a b).mp hp
      exact writes_join charset .implies (iha ha true) (ihb hb true) nested
  | and a b iha ihb =>
      obtain ⟨ha, hb⟩ := (writable_and a b).mp hp
      exact writes_join charset .and (iha ha true) (ihb hb true) nested
  | or a b iha ihb =>
      obtain ⟨ha, hb⟩ := (writable_or a b).mp hp
      exact writes_join charset .or (iha ha true) (ihb hb true) nested

/-- Parentheses around a printed term, if it is nested. -/
theorem Term.writes_enclose {text : String} {t : Term} (hwrites : Writes text (t.tokens .term))
    (nested : Bool) : Writes (enclose nested text) (t.tokens (.printed nested)) := by
  cases nested with
  | false => exact hwrites
  | true =>
      have hmark : Mark "(" [.lparen] := ⟨rfl, by decide, by decide⟩
      refine (hwrites.closed_by_rparen hmark).mono ?_
      simp only [Language.mem_mul, mem_ofKinds_singleton]
      rintro _ ⟨_, ⟨_, ⟨lpar, hlpar, rfl⟩, tokens, ht, rfl⟩, _, ⟨rpar, hrpar, rfl⟩, rfl⟩
      exact .parens hlpar ht hrpar

theorem Term.writes_app (charset : Charset) {f x : Term}
    (hf : Writes (f.render charset.glyphs true) (f.tokens .simple))
    (hx : Writes (x.render charset.glyphs true) (x.tokens .simple)) (nested : Bool) :
    Writes ((Term.app f x).render charset.glyphs nested)
      ((Term.app f x).tokens (.printed nested)) := by
  have hglue : Glue " " [] := ⟨rfl, by decide, by decide, by decide⟩
  refine writes_enclose ((hf.glued hglue hx).mono ?_) nested
  simp only [Language.mem_mul, mem_ofKinds_nil]
  rintro _ ⟨_, ⟨fs, hf, _, rfl, rfl⟩, xs, hx, rfl⟩
  rw [List.append_nil]
  exact .application (.argument (.head hf) hx)

theorem Term.writes_lam (charset : Charset) {name : String} {domain : Proposition} {body : Term}
    (hname : isIdentifier name = true)
    (hdomain : Writes (domain.render charset.glyphs false) (domain.tokens (.joined .implies)))
    (hbody : Writes (body.render charset.glyphs false) (body.tokens .term)) (nested : Bool) :
    Writes ((Term.lam name domain body).render charset.glyphs nested)
      ((Term.lam name domain body).tokens (.printed nested)) := by
  have hrender : (Term.lam name domain body).render charset.glyphs nested =
      enclose nested ((charset.glyphs.lambda ++ " (") ++ (name ++ " : " ++
        (domain.render charset.glyphs false ++ (") " ++ charset.glyphs.arrow ++ " ") ++
          body.render charset.glyphs false))) := by
    simp only [render, String.append_assoc]
  have hlambda : Mark (charset.glyphs.lambda ++ " (") [.lambda, .lparen] := by
    cases charset <;> exact ⟨rfl, by decide, by decide⟩
  have hcolon : Glue " : " [.colon] := ⟨rfl, by decide, by decide, by decide⟩
  have harrow : Glue (") " ++ charset.glyphs.arrow ++ " ") [.rparen, .arrow] := by
    cases charset <;> exact ⟨rfl, by decide, by decide, by decide⟩
  rw [hrender]
  have hwrites := ((Writes.of_isIdentifier hname).glued hcolon
    (hdomain.glued harrow hbody)).after_mark hlambda
  refine writes_enclose (hwrites.mono ?_) nested
  simp only [Language.mem_mul, mem_ofKinds_singleton, mem_ofKinds_pair, mem_ofIdentifier,
    Proposition.mem_tokens, mem_tokens]
  rintro _ ⟨_, ⟨word, lpar, hword, hlpar, rfl⟩, _, ⟨_, ⟨_, ⟨ident, hident, rfl, rfl⟩, _,
    ⟨colon, hcolon, rfl⟩, rfl⟩, _, ⟨_, ⟨ds, hdomain, _, ⟨rpar, arrow, hrpar, harrow, rfl⟩, rfl⟩,
    bs, hbody, rfl⟩, rfl⟩, rfl⟩
  have hbinder : DerivesTypedBinder (lpar :: ident :: colon :: (ds ++ [rpar, arrow])) ident.text
      domain :=
    ⟨lpar, ident, colon, rpar, arrow, ds, hlpar, hident, hcolon, hdomain, hrpar, harrow, rfl, rfl⟩
  simpa using DerivesTerm.lam hword hbinder hbody

/-- The tokens of a name in front of an arrow. -/
def binderTokens (name : String) : Language Token :=
  {tokens | DerivesBinder tokens name}

theorem mem_binderTokens {name : String} {tokens : List Token} :
    tokens ∈ binderTokens name ↔ DerivesBinder tokens name :=
  Iff.rfl

theorem Writes.after_binder (charset : Charset) {name text : String} {language : Language Token}
    (hname : isIdentifier name = true) (hwrites : Writes text language) :
    Writes (name ++ (" " ++ charset.glyphs.arrow ++ " ") ++ text)
      (binderTokens name * language) := by
  have harrow : Glue (" " ++ charset.glyphs.arrow ++ " ") [.arrow] := by
    cases charset <;> exact ⟨rfl, by decide, by decide, by decide⟩
  refine ((Writes.of_isIdentifier hname).glued harrow hwrites).mono ?_
  simp only [Language.mem_mul, mem_ofKinds_singleton, mem_ofIdentifier]
  rintro _ ⟨_, ⟨_, ⟨ident, hident, rfl, rfl⟩, _, ⟨arrow, harrow, rfl⟩, rfl⟩, tokens, htokens, rfl⟩
  exact ⟨[ident, arrow], ⟨ident, arrow, hident, harrow, rfl, rfl⟩, tokens, htokens, rfl⟩

theorem Term.writes_cases (charset : Charset) {t u v : Term} {x y : String}
    (ht : Writes (t.render charset.glyphs true) (t.tokens .simple))
    (hx : isIdentifier x = true)
    (hu : Writes (u.render charset.glyphs true) (u.tokens .simple))
    (hy : isIdentifier y = true)
    (hv : Writes (v.render charset.glyphs true) (v.tokens .simple)) (nested : Bool) :
    Writes ((Term.cases t x u y v).render charset.glyphs nested)
      ((Term.cases t x u y v).tokens (.printed nested)) := by
  -- The text as a mark, glue and binders between the printed parts.
  have hrender : (Term.cases t x u y v).render charset.glyphs nested =
      enclose nested ("case " ++ (t.render charset.glyphs true ++ " of " ++
        (x ++ (" " ++ charset.glyphs.arrow ++ " ") ++ (u.render charset.glyphs true ++ " | " ++
          (y ++ (" " ++ charset.glyphs.arrow ++ " ") ++ v.render charset.glyphs true))))) := by
    simp only [render, String.append_assoc]
  have hcase : Mark "case " [.case] := ⟨rfl, by decide, by decide⟩
  have hof : Glue " of " [.of] := ⟨rfl, by decide, by decide, by decide⟩
  have hpipe : Glue " | " [.pipe] := ⟨rfl, by decide, by decide, by decide⟩
  have hbranches := (hu.glued hpipe (hv.after_binder charset hy)).after_binder charset hx
  rw [hrender]
  refine writes_enclose (((ht.glued hof hbranches).after_mark hcase).mono ?_) nested
  simp only [Language.mem_mul, mem_ofKinds_singleton, mem_binderTokens, mem_tokens]
  rintro _ ⟨_, ⟨word, hword, rfl⟩, _, ⟨_, ⟨ts, ht, _, ⟨ofWord, hof, rfl⟩, rfl⟩, _, ⟨xs, hx, _,
    ⟨_, ⟨us, hu, _, ⟨pipe, hpipe, rfl⟩, rfl⟩, _, ⟨ys, hy, vs, hv, rfl⟩, rfl⟩, rfl⟩, rfl⟩, rfl⟩
  simpa using DerivesTerm.cases hword (ht.of_simple .term) hof hx (hu.of_simple .term) hpipe hy
    (hv.of_simple .term)

/-- A printed form that is a reserved word in front of a term in parentheses. -/
theorem Term.writes_marked {mark text : String} {kind : Token.Kind} {t result : Term}
    (hmark : Mark mark [kind, .lparen]) (ht : Writes text (t.tokens .term))
    (hresult : ∀ {word lpar rpar : Token} {ts : List Token}, word.kind = kind →
      lpar.kind = .lparen → DerivesTerm .term ts t → rpar.kind = .rparen →
      DerivesTerm .simple (word :: lpar :: (ts ++ [rpar])) result) (nested : Bool) :
    Writes (mark ++ text ++ ")") (result.tokens (.printed nested)) := by
  refine (ht.closed_by_rparen hmark).mono ?_
  simp only [Language.mem_mul, mem_ofKinds_singleton, mem_ofKinds_pair, mem_tokens]
  rintro _ ⟨_, ⟨_, ⟨word, lpar, hword, hlpar, rfl⟩, ts, ht, rfl⟩, _, ⟨rpar, hrpar, rfl⟩, rfl⟩
  exact (hresult hword hlpar ht hrpar).of_simple _

/-- A printed form that is a reserved word in front of two things in parentheses. -/
theorem Term.writes_marked_pair {mark first second : String} {kind : Token.Kind}
    {language other : Language Token} {result : Term} (hmark : Mark mark [kind, .lparen])
    (hfirst : Writes first language) (hsecond : Writes second other)
    (hresult : ∀ {word lpar comma rpar : Token} {ts us : List Token}, word.kind = kind →
      lpar.kind = .lparen → ts ∈ language → comma.kind = .comma → us ∈ other →
      rpar.kind = .rparen →
      DerivesTerm .simple (word :: lpar :: (ts ++ comma :: (us ++ [rpar]))) result)
    (nested : Bool) :
    Writes (mark ++ first ++ "," ++ second ++ ")") (result.tokens (.printed nested)) := by
  have hcomma : Glue "," [.comma] := ⟨rfl, by decide, by decide, by decide⟩
  refine (Writes.pair_closed_by_rparen hmark hcomma hfirst hsecond).mono ?_
  simp only [Language.mem_mul, mem_ofKinds_singleton, mem_ofKinds_pair, mem_tokens]
  rintro _ ⟨_, ⟨_, ⟨word, lpar, hword, hlpar, rfl⟩, _, ⟨_, ⟨ts, hts, _, ⟨comma, hcomma, rfl⟩,
    rfl⟩, us, hus, rfl⟩, rfl⟩, _, ⟨rpar, hrpar, rfl⟩, rfl⟩
  simpa using (hresult hword hlpar hts hcomma hus hrpar).of_simple _

theorem Term.writes_pair (charset : Charset) {l r : Term}
    (hl : Writes (l.render charset.glyphs false) (l.tokens .term))
    (hr : Writes (r.render charset.glyphs false) (r.tokens .term)) (nested : Bool) :
    Writes ((Term.pair l r).render charset.glyphs nested)
      ((Term.pair l r).tokens (.printed nested)) := by
  have hmark : Mark "(" [.lparen] := ⟨rfl, by decide, by decide⟩
  have hcomma : Glue " , " [.comma] := ⟨rfl, by decide, by decide, by decide⟩
  refine (Writes.pair_closed_by_rparen hmark hcomma hl hr).mono ?_
  simp only [Language.mem_mul, mem_ofKinds_singleton, mem_tokens]
  rintro _ ⟨_, ⟨_, ⟨lpar, hlpar, rfl⟩, _, ⟨_, ⟨ls, hl, _, ⟨comma, hcomma, rfl⟩, rfl⟩, rs, hr,
    rfl⟩, rfl⟩, _, ⟨rpar, hrpar, rfl⟩, rfl⟩
  simpa using (DerivesTerm.pair hlpar hl hcomma hr hrpar).of_simple _

/-- The text of a writable term is made up of tokens from which the grammar makes the term. -/
theorem Term.writes_render (charset : Charset) {t : Term} (ht : t.Writable) (nested : Bool) :
    Writes (t.render charset.glyphs nested) (t.tokens (.printed nested)) := by
  induction t generalizing nested with
  | var name =>
      refine (Writes.of_isIdentifier ((writable_var name).mp ht)).mono ?_
      simp only [mem_ofIdentifier, mem_tokens]
      rintro _ ⟨token, hident, rfl, rfl⟩
      exact (DerivesTerm.var hident).of_simple _
  | unit =>
      have hwrites : Writes "()" (ofKinds [.lparen, .rparen]) :=
        ⟨.of_ofText rfl, by decide, by decide⟩
      refine hwrites.mono ?_
      simp only [mem_ofKinds_pair, mem_tokens]
      rintro _ ⟨lpar, rpar, hlpar, hrpar, rfl⟩
      exact (DerivesTerm.unit hlpar hrpar).of_simple _
  | lam name domain body ih =>
      obtain ⟨hname, hdomain, hbody⟩ := (writable_lam name domain body).mp ht
      exact writes_lam charset hname (Proposition.writes_render charset hdomain false)
        (ih hbody false) nested
  | app f x ihf ihx =>
      obtain ⟨hf, hx⟩ := (writable_app f x).mp ht
      exact writes_app charset (ihf hf true) (ihx hx true) nested
  | cases t x u y v iht ihu ihv =>
      obtain ⟨ht, hx, hu, hy, hv⟩ := (writable_cases t x u y v).mp ht
      exact writes_cases charset (iht ht true) hx (ihu hu true) hy (ihv hv true) nested
  | pair l r ihl ihr =>
      obtain ⟨hl, hr⟩ := (writable_pair l r).mp ht
      exact writes_pair charset (ihl hl false) (ihr hr false) nested
  | fst t ih =>
      have hmark : Mark "fst(" [.fst, .lparen] := ⟨rfl, by decide, by decide⟩
      exact writes_marked hmark (ih ht false) .fst nested
  | snd t ih =>
      have hmark : Mark "snd(" [.snd, .lparen] := ⟨rfl, by decide, by decide⟩
      exact writes_marked hmark (ih ht false) .snd nested
  | inl t other ih =>
      obtain ⟨ht, hother⟩ := (writable_inl t other).mp ht
      have hmark : Mark "left(" [.left, .lparen] := ⟨rfl, by decide, by decide⟩
      exact writes_marked_pair hmark (ih ht false)
        (Proposition.writes_render charset hother false) .inl nested
  | inr other t ih =>
      obtain ⟨hother, ht⟩ := (writable_inr other t).mp ht
      have hmark : Mark "right(" [.right, .lparen] := ⟨rfl, by decide, by decide⟩
      exact writes_marked_pair hmark (Proposition.writes_render charset hother false)
        (ih ht false) .inr nested
  | absurd t target ih =>
      obtain ⟨ht, htarget⟩ := (writable_absurd t target).mp ht
      have hmark : Mark "absurd(" [.absurd, .lparen] := ⟨rfl, by decide, by decide⟩
      exact writes_marked_pair hmark (ih ht false)
        (Proposition.writes_render charset htarget false) .absurd nested

/-! ## Printed texts read back -/

theorem Term.parse_of_spells {text : String} {t : Term}
    (hspells : Spells text (t.tokens .term)) : Term.parse text = .ok t := by
  obtain ⟨tokens, hderives, hcut⟩ := hspells 1
  exact (Term.parse_eq_ok_iff text t).mpr
    ⟨⟨tokens, _⟩, (TokenStream.ofText_eq_ok_iff text _).mpr ⟨hcut, rfl⟩, hderives⟩

theorem Proposition.parse_of_spells {text : String} {p : Proposition}
    (hspells : Spells text (p.tokens (.joined .implies))) : Proposition.parse text = .ok p := by
  obtain ⟨tokens, hderives, hcut⟩ := hspells 1
  exact (Proposition.parse_eq_ok_iff text p).mpr
    ⟨⟨tokens, _⟩, (TokenStream.ofText_eq_ok_iff text _).mpr ⟨hcut, rfl⟩, hderives⟩

theorem Term.parse_format {t : Term} (ht : t.Writable) (charset : Charset) :
    Term.parse (t.format charset) = .ok t :=
  parse_of_spells (writes_render charset ht false).spells

theorem Proposition.parse_format {p : Proposition} (hp : p.Writable) (charset : Charset) :
    Proposition.parse (p.format charset) = .ok p :=
  parse_of_spells (writes_render charset hp false).spells

/-- In both charsets a term reads back as itself exactly if its names are identifiers; every term
that was read from a text has only such names, so it is not changed by printing and reading. The
same holds for propositions. -/
theorem reading_inverts_printing :
    (∀ (t : Term) (charset : Charset), Term.parse (t.format charset) = .ok t ↔
      ∀ name ∈ t.names, isIdentifier name = true) ∧
    (∀ (text : String) (t : Term), Term.parse text = .ok t →
      (∀ name ∈ t.names, isIdentifier name = true) ∧
      ∀ charset : Charset, Term.parse (t.format charset) = .ok t) ∧
    (∀ (p : Proposition) (charset : Charset), Proposition.parse (p.format charset) = .ok p ↔
      ∀ name ∈ p.atoms, isIdentifier name = true) ∧
    ∀ (text : String) (p : Proposition), Proposition.parse text = .ok p →
      (∀ name ∈ p.atoms, isIdentifier name = true) ∧
      ∀ charset : Charset, Proposition.parse (p.format charset) = .ok p := by
  refine ⟨?_, ?_, ?_, ?_⟩
  · intro t charset
    exact ⟨Term.writable_of_parse, fun ht => Term.parse_format ht charset⟩
  · intro text t hparse
    have ht := Term.writable_of_parse hparse
    exact ⟨ht, Term.parse_format ht⟩
  · intro p charset
    exact ⟨Proposition.writable_of_parse, fun hp => Proposition.parse_format hp charset⟩
  · intro text p hparse
    have hp := Proposition.writable_of_parse hparse
    exact ⟨hp, Proposition.parse_format hp⟩

/-- Texts with needless parentheses, mixed spellings and a negation, which print otherwise than
they were written. -/
theorem reading_inverts_printing_mixed :
    Term.parse "λ(f:A ⇒ not B)->((f) x) left((),_)" =
        .ok (.lam "f" (.implies (.atom "A") (.implies (.atom "B") .falsity))
          (.app (.app (.var "f") (.var "x")) (.inl .unit .falsity))) ∧
      Term.parse ((Term.lam "f" (.implies (.atom "A") (.implies (.atom "B") .falsity))
          (.app (.app (.var "f") (.var "x")) (.inl .unit .falsity))).format .unicode) =
        .ok (.lam "f" (.implies (.atom "A") (.implies (.atom "B") .falsity))
          (.app (.app (.var "f") (.var "x")) (.inl .unit .falsity))) ∧
      Proposition.parse "A => B => ¬ C" =
        .ok (.implies (.atom "A") (.implies (.atom "B") (.implies (.atom "C") .falsity))) ∧
      Proposition.parse ((Proposition.implies (.atom "A") (.implies (.atom "B")
          (.implies (.atom "C") .falsity))).format .ascii) =
        .ok (.implies (.atom "A") (.implies (.atom "B") (.implies (.atom "C") .falsity))) := by
  have hterm : Term.parse "λ(f:A ⇒ not B)->((f) x) left((),_)" =
      .ok (.lam "f" (.implies (.atom "A") (.implies (.atom "B") .falsity))
        (.app (.app (.var "f") (.var "x")) (.inl .unit .falsity))) := by
    cbv
  have hproposition : Proposition.parse "A => B => ¬ C" =
      .ok (.implies (.atom "A") (.implies (.atom "B") (.implies (.atom "C") .falsity))) := by
    cbv
  exact ⟨hterm, (reading_inverts_printing.2.1 _ _ hterm).2 .unicode, hproposition,
    (reading_inverts_printing.2.2.2 _ _ hproposition).2 .ascii⟩

/-! ## Identifiers -/

/-- An identifier is the only token of its text, and no other text has a single token that is an
identifier and fills it. -/
theorem isIdentifier_iff_ofText (text : String) :
    isIdentifier text = true ↔
      ∃ stream, TokenStream.ofText text = .ok stream ∧
        stream.toList = [⟨.ident, text, 1⟩, .eof (text.toList.length + 1)] := by
  constructor
  · intro hname
    exact ⟨⟨[⟨.ident, text, 1⟩], text.toList.length + 1⟩,
      (TokenStream.ofText_eq_ok_iff text _).mpr ⟨.of_isIdentifier hname 1, rfl⟩, rfl⟩
  · rintro ⟨stream, hread, hlist⟩
    have htokens : stream.tokens = [⟨.ident, text, 1⟩] := by
      simpa [TokenStream.toList] using congrArg List.dropLast hlist
    have hspelled := TokenStream.wellSpelled_of_ofText hread
    rw [htokens] at hspelled
    exact (hspelled _ (List.mem_singleton_self _)).2 rfl

/-- The test for identifiers agrees with reading. A text passes it if and only if the lexer yields
one identifier that is the whole text and the end of the text behind it, if and only if the text is
read as the variable of that name, and if and only if it is read as the atom of that name. -/
theorem identifiers_are_read_as_names (text : String) :
    (isIdentifier text = true ↔
      ∃ stream, TokenStream.ofText text = .ok stream ∧
        stream.toList = [⟨.ident, text, 1⟩, .eof (text.toList.length + 1)]) ∧
    (isIdentifier text = true ↔ Term.parse text = .ok (.var text)) ∧
    (isIdentifier text = true ↔ Proposition.parse text = .ok (.atom text)) := by
  refine ⟨isIdentifier_iff_ofText text, ?_, ?_⟩
  · rw [← Term.writable_var]
    constructor
    · -- A variable is printed as its name, so that the text is what reads back.
      intro hwritable
      exact Term.parse_format hwritable .ascii
    · exact Term.writable_of_parse
  · rw [← Proposition.writable_atom]
    constructor
    · intro hwritable
      exact Proposition.parse_format hwritable .ascii
    · exact Proposition.writable_of_parse

/-- Blanks and parentheses around a name do not change the variable that is read, but the text; a
reserved word in front of other letters is not reserved. -/
example :
    Term.parse "(x)" = .ok (.var "x") ∧ Term.parse " x\n" = .ok (.var "x") ∧
      isIdentifier "(x)" = false ∧ isIdentifier "x\n" = false ∧ isIdentifier "fst" = false ∧
      isIdentifier "fst'" = true := by
  decide +kernel

end Sequitur
