import Sequitur.Printer
import Sequitur.Proofs.Grammar.Term
import Sequitur.Proofs.Seams

/-! # Charsets

The two charsets write the same tokens. Names of any spelling may stand in a
proposition or term, and the lexer may read them as anything or fail; but every
name and every glyph is printed between separators, so that no token reaches
from one into the other. The parsers look at the kinds of tokens and at the
names of identifiers, and never learn which charset was used.
-/

namespace Sequitur

open Lexer Grammar

/-! ## What parsers see of tokens -/

/-- What a parser sees of a token: its kind, and its spelling if it is an identifier. -/
def Token.sense (token : Token) : Kind × Option String :=
  (token.kind, if token.kind = .ident then some token.text else none)

namespace Token

theorem kind_eq_of_sense {token other : Token} {kind : Kind} (hsense : token.sense = other.sense)
    (hkind : other.kind = kind) : token.kind = kind :=
  (congrArg Prod.fst hsense).trans hkind

theorem text_eq_of_sense {token other : Token} (hsense : token.sense = other.sense)
    (hother : other.kind = .ident) : token.text = other.text := by
  have htext := congrArg Prod.snd hsense
  simp only [sense, kind_eq_of_sense hsense hother, hother, if_true] at htext
  exact Option.some.inj htext

end Token

/-- Tokens between which a parser sees no difference. -/
def SameSenses (tokens others : List Token) : Prop :=
  tokens.map Token.sense = others.map Token.sense

namespace SameSenses

theorem nil_right {tokens : List Token} : SameSenses tokens [] ↔ tokens = [] :=
  List.map_eq_nil_iff

theorem cons_right {tokens others : List Token} {other : Token} :
    SameSenses tokens (other :: others) ↔
      ∃ token rest, tokens = token :: rest ∧ token.sense = other.sense ∧ SameSenses rest others :=
  List.map_eq_cons_iff

theorem append_right {tokens front back : List Token} :
    SameSenses tokens (front ++ back) ↔
      ∃ first second, tokens = first ++ second ∧ SameSenses first front ∧
        SameSenses second back := by
  rw [SameSenses, List.map_append, List.map_eq_append_iff]
  rfl

end SameSenses

namespace Grammar

open Token

/-- The grammar looks at nothing but what parsers see. -/
theorem DerivesProposition.of_sameSenses {level : Level} {tokens others : List Token}
    {p : Proposition} (hderives : DerivesProposition level others p)
    (hsame : SameSenses tokens others) : DerivesProposition level tokens p := by
  induction hderives generalizing tokens with
  | single _ ih => exact .single (ih hsame)
  | join _ hop _ iha ihb =>
      simp only [SameSenses.append_right, SameSenses.cons_right] at hsame
      obtain ⟨left, _, rfl, hleft, o, right, rfl, ho, hright⟩ := hsame
      exact .join (iha hleft) (kind_eq_of_sense ho hop) (ihb hright)
  | negation hop _ ih =>
      obtain ⟨o, tokens, rfl, ho, htokens⟩ := SameSenses.cons_right.mp hsame
      exact .negation (kind_eq_of_sense ho hop) (ih htokens)
  | atom hname =>
      simp only [SameSenses.cons_right, SameSenses.nil_right] at hsame
      obtain ⟨name, _, rfl, hsense, rfl⟩ := hsame
      rw [← text_eq_of_sense hsense hname]
      exact .atom (kind_eq_of_sense hsense hname)
  | truth htoken =>
      simp only [SameSenses.cons_right, SameSenses.nil_right] at hsame
      obtain ⟨token, _, rfl, hsense, rfl⟩ := hsame
      exact .truth (kind_eq_of_sense hsense htoken)
  | falsity htoken =>
      simp only [SameSenses.cons_right, SameSenses.nil_right] at hsame
      obtain ⟨token, _, rfl, hsense, rfl⟩ := hsame
      exact .falsity (kind_eq_of_sense hsense htoken)
  | parens hlpar _ hrpar ih =>
      simp only [SameSenses.append_right, SameSenses.cons_right, SameSenses.nil_right] at hsame
      obtain ⟨l, _, rfl, hl, tokens, _, rfl, htokens, r, _, rfl, hr, rfl⟩ := hsame
      exact .parens (kind_eq_of_sense hl hlpar) (ih htokens) (kind_eq_of_sense hr hrpar)

theorem DerivesBinder.of_sameSenses {tokens others : List Token} {name : String}
    (hbinder : DerivesBinder others name) (hsame : SameSenses tokens others) :
    DerivesBinder tokens name := by
  obtain ⟨ident, arrow, hident, harrow, rfl, rfl⟩ := hbinder
  simp only [SameSenses.cons_right, SameSenses.nil_right] at hsame
  obtain ⟨i, _, rfl, hi, a, _, rfl, ha, rfl⟩ := hsame
  exact ⟨i, a, kind_eq_of_sense hi hident, kind_eq_of_sense ha harrow, rfl,
    (text_eq_of_sense hi hident).symm⟩

theorem DerivesTypedBinder.of_sameSenses {tokens others : List Token} {name : String}
    {p : Proposition} (hbinder : DerivesTypedBinder others name p)
    (hsame : SameSenses tokens others) : DerivesTypedBinder tokens name p := by
  obtain ⟨lpar, ident, colon, rpar, arrow, domain, hlpar, hident, hcolon, hdomain, hrpar, harrow,
    rfl, rfl⟩ := hbinder
  simp only [SameSenses.append_right, SameSenses.cons_right, SameSenses.nil_right] at hsame
  obtain ⟨l, _, rfl, hl, i, _, rfl, hi, c, _, rfl, hc, ds, _, rfl, hds, r, _, rfl, hr, a, _, rfl,
    ha, rfl⟩ := hsame
  exact ⟨l, i, c, r, a, ds, kind_eq_of_sense hl hlpar, kind_eq_of_sense hi hident,
    kind_eq_of_sense hc hcolon, hdomain.of_sameSenses hds, kind_eq_of_sense hr hrpar,
    kind_eq_of_sense ha harrow, rfl, (text_eq_of_sense hi hident).symm⟩

theorem DerivesTerm.of_sameSenses {level : TermLevel} {tokens others : List Token} {t : Term}
    (hderives : DerivesTerm level others t) (hsame : SameSenses tokens others) :
    DerivesTerm level tokens t := by
  induction hderives generalizing tokens with
  | lam hword hbinder _ ih =>
      simp only [SameSenses.append_right, SameSenses.cons_right] at hsame
      obtain ⟨w, _, rfl, hw, bs, ts, rfl, hbs, hts⟩ := hsame
      exact .lam (kind_eq_of_sense hw hword) (hbinder.of_sameSenses hbs) (ih hts)
  | cases hword _ hof hx _ hpipe hy _ iht ihu ihv =>
      simp only [SameSenses.append_right, SameSenses.cons_right] at hsame
      obtain ⟨w, _, rfl, hw, ts, _, rfl, hts, o, _, rfl, ho, xs, _, rfl, hxs, us, _, rfl, hus, p, _,
        rfl, hp, ys, vs, rfl, hys, hvs⟩ := hsame
      exact .cases (kind_eq_of_sense hw hword) (iht hts) (kind_eq_of_sense ho hof)
        (hx.of_sameSenses hxs) (ihu hus) (kind_eq_of_sense hp hpipe) (hy.of_sameSenses hys)
        (ihv hvs)
  | application _ ih => exact .application (ih hsame)
  | head _ ih => exact .head (ih hsame)
  | argument _ _ ihf ihx =>
      obtain ⟨fs, xs, rfl, hfs, hxs⟩ := SameSenses.append_right.mp hsame
      exact .argument (ihf hfs) (ihx hxs)
  | var hident =>
      simp only [SameSenses.cons_right, SameSenses.nil_right] at hsame
      obtain ⟨i, _, rfl, hi, rfl⟩ := hsame
      rw [← text_eq_of_sense hi hident]
      exact .var (kind_eq_of_sense hi hident)
  | unit hlpar hrpar =>
      simp only [SameSenses.cons_right, SameSenses.nil_right] at hsame
      obtain ⟨l, _, rfl, hl, r, _, rfl, hr, rfl⟩ := hsame
      exact .unit (kind_eq_of_sense hl hlpar) (kind_eq_of_sense hr hrpar)
  | parens hlpar _ hrpar ih =>
      simp only [SameSenses.append_right, SameSenses.cons_right, SameSenses.nil_right] at hsame
      obtain ⟨l, _, rfl, hl, ts, _, rfl, hts, r, _, rfl, hr, rfl⟩ := hsame
      exact .parens (kind_eq_of_sense hl hlpar) (ih hts) (kind_eq_of_sense hr hrpar)
  | pair hlpar _ hcomma _ hrpar ihl ihr =>
      simp only [SameSenses.append_right, SameSenses.cons_right, SameSenses.nil_right] at hsame
      obtain ⟨l, _, rfl, hl, ls, _, rfl, hls, c, _, rfl, hc, rs, _, rfl, hrs, r, _, rfl, hr, rfl⟩ :=
        hsame
      exact .pair (kind_eq_of_sense hl hlpar) (ihl hls) (kind_eq_of_sense hc hcomma) (ihr hrs)
        (kind_eq_of_sense hr hrpar)
  | fst hword hlpar _ hrpar ih =>
      simp only [SameSenses.append_right, SameSenses.cons_right, SameSenses.nil_right] at hsame
      obtain ⟨w, _, rfl, hw, l, _, rfl, hl, ts, _, rfl, hts, r, _, rfl, hr, rfl⟩ := hsame
      exact .fst (kind_eq_of_sense hw hword) (kind_eq_of_sense hl hlpar) (ih hts)
        (kind_eq_of_sense hr hrpar)
  | snd hword hlpar _ hrpar ih =>
      simp only [SameSenses.append_right, SameSenses.cons_right, SameSenses.nil_right] at hsame
      obtain ⟨w, _, rfl, hw, l, _, rfl, hl, ts, _, rfl, hts, r, _, rfl, hr, rfl⟩ := hsame
      exact .snd (kind_eq_of_sense hw hword) (kind_eq_of_sense hl hlpar) (ih hts)
        (kind_eq_of_sense hr hrpar)
  | inl hword hlpar _ hcomma hp hrpar ih =>
      simp only [SameSenses.append_right, SameSenses.cons_right, SameSenses.nil_right] at hsame
      obtain ⟨w, _, rfl, hw, l, _, rfl, hl, ts, _, rfl, hts, c, _, rfl, hc, ps, _, rfl, hps, r, _,
        rfl, hr, rfl⟩ := hsame
      exact .inl (kind_eq_of_sense hw hword) (kind_eq_of_sense hl hlpar) (ih hts)
        (kind_eq_of_sense hc hcomma) (hp.of_sameSenses hps) (kind_eq_of_sense hr hrpar)
  | inr hword hlpar hp hcomma _ hrpar ih =>
      simp only [SameSenses.append_right, SameSenses.cons_right, SameSenses.nil_right] at hsame
      obtain ⟨w, _, rfl, hw, l, _, rfl, hl, ps, _, rfl, hps, c, _, rfl, hc, ts, _, rfl, hts, r, _,
        rfl, hr, rfl⟩ := hsame
      exact .inr (kind_eq_of_sense hw hword) (kind_eq_of_sense hl hlpar) (hp.of_sameSenses hps)
        (kind_eq_of_sense hc hcomma) (ih hts) (kind_eq_of_sense hr hrpar)
  | absurd hword hlpar _ hcomma hp hrpar ih =>
      simp only [SameSenses.append_right, SameSenses.cons_right, SameSenses.nil_right] at hsame
      obtain ⟨w, _, rfl, hw, l, _, rfl, hl, ts, _, rfl, hts, c, _, rfl, hc, ps, _, rfl, hps, r, _,
        rfl, hr, rfl⟩ := hsame
      exact .absurd (kind_eq_of_sense hw hword) (kind_eq_of_sense hl hlpar) (ih hts)
        (kind_eq_of_sense hc hcomma) (hp.of_sameSenses hps) (kind_eq_of_sense hr hrpar)

end Grammar

/-! ## Texts that read alike -/

/-- Texts between which a parser sees no difference: neither can be cut into tokens, or both are
cut into tokens of the same kinds and the same identifiers. -/
def ReadAlike (text other : String) : Prop :=
  (∃ error otherError, TokenStream.ofText text = .error error ∧
    TokenStream.ofText other = .error otherError) ∨
  ∃ stream otherStream, TokenStream.ofText text = .ok stream ∧
    TokenStream.ofText other = .ok otherStream ∧ SameSenses stream.toList otherStream.toList

/-- What a parser sees of a text, if the text can be cut into tokens. -/
def outline (text : String) : Option (List (Token.Kind × Option String)) :=
  (TokenStream.ofText text).toOption.map fun stream => stream.tokens.map Token.sense

theorem sameSenses_toList {stream other : TokenStream} :
    SameSenses stream.toList other.toList ↔ SameSenses stream.tokens other.tokens := by
  simp [SameSenses, TokenStream.toList, Token.sense, Token.eof]

theorem readAlike_iff_outline_eq {text other : String} :
    ReadAlike text other ↔ outline text = outline other := by
  rw [ReadAlike, outline, outline]
  cases TokenStream.ofText text with
  | error error =>
      cases TokenStream.ofText other with
      | error otherError => simp [Except.toOption]
      | ok otherStream => simp [Except.toOption]
  | ok stream =>
      cases TokenStream.ofText other with
      | error otherError => simp [Except.toOption]
      | ok otherStream =>
          have hsame : SameSenses stream.toList otherStream.toList ↔
              stream.tokens.map Token.sense = otherStream.tokens.map Token.sense :=
            sameSenses_toList
          simp [Except.toOption, hsame]

theorem outline_append {front back : String} (hseam : Seam front.toList back.toList) :
    outline (front ++ back) = Option.map₂ (· ++ ·) (outline front) (outline back) := by
  rw [outline, outline, outline, TokenStream.ofText_append hseam]
  cases TokenStream.ofText front with
  | error error => rfl
  | ok first =>
      cases TokenStream.ofText back with
      | error error => rfl
      | ok second =>
          have hmoved : (second.tokens.map (Token.shift front.length)).map Token.sense =
              second.tokens.map Token.sense := by
            rw [List.map_map]
            rfl
          simp [moved, TokenStream.shift, Except.toOption, Option.map₂, hmoved]

/-- A fixed text that keeps what stands in front of it and what stands behind it apart. -/
structure Joint (text : String) : Prop where
  begins : BeginsSeparate text.toList
  ends : EndsSeparate text.toList

namespace ReadAlike

theorem refl (text : String) : ReadAlike text text :=
  readAlike_iff_outline_eq.mpr rfl

theorem append {front front' back back' : String} (hfront : ReadAlike front front')
    (hback : ReadAlike back back') (hseam : Seam front.toList back.toList)
    (hseam' : Seam front'.toList back'.toList) : ReadAlike (front ++ back) (front' ++ back') := by
  rw [readAlike_iff_outline_eq] at hfront hback ⊢
  rw [outline_append hseam, outline_append hseam', hfront, hback]

theorem after {mark text text' : String} (hmark : EndsSeparate mark.toList)
    (htext : ReadAlike text text') : ReadAlike (mark ++ text) (mark ++ text') :=
  (refl mark).append htext (Or.inl hmark) (Or.inl hmark)

theorem before {text text' mark : String} (htext : ReadAlike text text')
    (hmark : BeginsSeparate mark.toList) : ReadAlike (text ++ mark) (text' ++ mark) :=
  htext.append (refl mark) (Or.inr hmark) (Or.inr hmark)

theorem around {front front' joint back back' : String} (hfront : ReadAlike front front')
    (hjoint : Joint joint) (hback : ReadAlike back back') :
    ReadAlike (front ++ joint ++ back) (front' ++ joint ++ back') := by
  refine (hfront.before hjoint.begins).append hback (Or.inl ?_) (Or.inl ?_)
  · rw [String.toList_append]
    exact hjoint.ends.append front.toList
  · rw [String.toList_append]
    exact hjoint.ends.append front'.toList

theorem spaced {front front' back back' : String} (hfront : ReadAlike front front')
    (hback : ReadAlike back back') : ReadAlike (front ++ " " ++ back) (front' ++ " " ++ back') :=
  hfront.around ⟨by decide, by decide⟩ hback

theorem enclose {text text' : String} (htext : ReadAlike text text') (nested : Bool) :
    ReadAlike (enclose nested text) (enclose nested text') := by
  cases nested with
  | false => exact htext
  | true => exact (after (by decide) htext).before (by decide)

end ReadAlike

/-! ## Parsers -/

theorem ReadAlike.symm {text other : String} (halike : ReadAlike text other) :
    ReadAlike other text :=
  readAlike_iff_outline_eq.mpr (readAlike_iff_outline_eq.mp halike).symm

section

variable {α : Type} {parse : String → Except SyntaxError α} {derives : List Token → α → Prop}

/-- What one text is read as, every text that reads alike is read as too. -/
theorem ReadAlike.parse_eq_ok {text other : String} {a : α} (halike : ReadAlike text other)
    (hparse : ∀ text a, parse text = .ok a ↔
      ∃ stream, TokenStream.ofText text = .ok stream ∧ derives stream.tokens a)
    (hderives : ∀ {tokens others a}, derives others a → SameSenses tokens others →
      derives tokens a) (hread : parse text = .ok a) : parse other = .ok a := by
  obtain ⟨stream, hstream, ha⟩ := (hparse text a).mp hread
  rcases halike with ⟨error, otherError, herror, -⟩ | ⟨first, second, hfirst, hsecond, hsame⟩
  · rw [herror] at hstream
    contradiction
  · rw [hfirst] at hstream
    obtain rfl := Except.ok.inj hstream
    exact (hparse other a).mpr
      ⟨second, hsecond, hderives ha (sameSenses_toList.mp hsame).symm⟩

/-- Texts that read alike are read as the same value, or neither is read as any. -/
theorem ReadAlike.parse_toOption_eq {text other : String} (halike : ReadAlike text other)
    (hparse : ∀ text a, parse text = .ok a ↔
      ∃ stream, TokenStream.ofText text = .ok stream ∧ derives stream.tokens a)
    (hderives : ∀ {tokens others a}, derives others a → SameSenses tokens others →
      derives tokens a) : (parse text).toOption = (parse other).toOption := by
  cases hread : parse text with
  | ok a => rw [halike.parse_eq_ok hparse hderives hread]
  | error error =>
      cases hother : parse other with
      | error otherError => rfl
      | ok a =>
          rw [halike.symm.parse_eq_ok hparse hderives hother] at hread
          contradiction

end

/-! ## Printed texts -/

/-- A glyph that is read alike in both charsets is read alike in any two. -/
theorem Charset.readAlike_glyph (c d : Charset) (glyph : Glyphs → String)
    (hglyph : outline (glyph Charset.ascii.glyphs) = outline (glyph Charset.unicode.glyphs)) :
    ReadAlike (glyph c.glyphs) (glyph d.glyphs) := by
  rw [readAlike_iff_outline_eq]
  cases c with
  | ascii => cases d with
    | ascii => rfl
    | unicode => exact hglyph
  | unicode => cases d with
    | ascii => exact hglyph.symm
    | unicode => rfl

theorem Proposition.readAlike_render (c d : Charset) (p : Proposition) (nested : Bool) :
    ReadAlike (p.render c.glyphs nested) (p.render d.glyphs nested) := by
  induction p generalizing nested with
  | atom name => exact .refl name
  | truth => exact c.readAlike_glyph d Glyphs.truth (by decide +kernel)
  | falsity => exact c.readAlike_glyph d Glyphs.falsity (by decide +kernel)
  | implies a b iha ihb =>
      have hglyph := c.readAlike_glyph d Glyphs.implies (by decide +kernel)
      exact (((iha true).spaced hglyph).spaced (ihb true)).enclose nested
  | and a b iha ihb =>
      have hglyph := c.readAlike_glyph d Glyphs.and (by decide +kernel)
      exact (((iha true).spaced hglyph).spaced (ihb true)).enclose nested
  | or a b iha ihb =>
      have hglyph := c.readAlike_glyph d Glyphs.or (by decide +kernel)
      exact (((iha true).spaced hglyph).spaced (ihb true)).enclose nested

theorem Term.readAlike_render (c d : Charset) (t : Term) (nested : Bool) :
    ReadAlike (t.render c.glyphs nested) (t.render d.glyphs nested) := by
  have hproposition : ∀ p : Proposition,
      ReadAlike (p.render c.glyphs false) (p.render d.glyphs false) :=
    fun p => p.readAlike_render c d false
  have hlambda := c.readAlike_glyph d Glyphs.lambda (by decide +kernel)
  have harrow := c.readAlike_glyph d Glyphs.arrow (by decide +kernel)
  have hcomma : Joint "," := ⟨by decide, by decide⟩
  induction t generalizing nested with
  | var name => exact .refl name
  | unit => exact .refl "()"
  | lam name domain body ih =>
      have hopening : Joint " (" := ⟨by decide, by decide⟩
      have hcolon : Joint " : " := ⟨by decide, by decide⟩
      have hclosing : Joint ") " := ⟨by decide, by decide⟩
      have hbinder := ((hlambda.around hopening (.refl name)).around hcolon
        (hproposition domain)).around hclosing harrow
      exact (hbinder.spaced (ih false)).enclose nested
  | app f x ihf ihx => exact ((ihf true).spaced (ihx true)).enclose nested
  | cases t x u y v iht ihu ihv =>
      have hof : Joint " of " := ⟨by decide, by decide⟩
      have hpipe : Joint " | " := ⟨by decide, by decide⟩
      have hcase : ReadAlike ("case " ++ t.render c.glyphs true)
          ("case " ++ t.render d.glyphs true) :=
        .after (by decide) (iht true)
      have hleft := ((hcase.around hof (.refl x)).spaced harrow).spaced (ihu true)
      have hright := ((hleft.around hpipe (.refl y)).spaced harrow).spaced (ihv true)
      exact hright.enclose nested
  | pair l r ihl ihr =>
      have hspacedComma : Joint " , " := ⟨by decide, by decide⟩
      exact ((ReadAlike.after (by decide) (ihl false)).around hspacedComma (ihr false)).before
        (by decide)
  | fst t ih => exact (ReadAlike.after (by decide) (ih false)).before (by decide)
  | snd t ih => exact (ReadAlike.after (by decide) (ih false)).before (by decide)
  | inl t other ih =>
      exact ((ReadAlike.after (by decide) (ih false)).around hcomma (hproposition other)).before
        (by decide)
  | inr other t ih =>
      exact ((ReadAlike.after (by decide) (hproposition other)).around hcomma (ih false)).before
        (by decide)
  | absurd t target ih =>
      exact ((ReadAlike.after (by decide) (ih false)).around hcomma (hproposition target)).before
        (by decide)

/-- ASCII and symbols never differ for a parser. Whatever names a proposition or a term holds, its
texts in the two charsets both cannot be cut into tokens, or are cut into tokens of the same kinds
with the same identifiers; so both are read as the same value, or neither is read as any. -/
theorem charsets_read_alike :
    (∀ p : Proposition, ReadAlike (p.format .ascii) (p.format .unicode) ∧
      (Proposition.parse (p.format .ascii)).toOption =
        (Proposition.parse (p.format .unicode)).toOption) ∧
    ∀ t : Term, ReadAlike (t.format .ascii) (t.format .unicode) ∧
      (Term.parse (t.format .ascii)).toOption = (Term.parse (t.format .unicode)).toOption := by
  constructor
  · intro p
    have halike : ReadAlike (p.format .ascii) (p.format .unicode) :=
      p.readAlike_render .ascii .unicode false
    exact ⟨halike, halike.parse_toOption_eq Proposition.parse_eq_ok_iff
      DerivesProposition.of_sameSenses⟩
  · intro t
    have halike : ReadAlike (t.format .ascii) (t.format .unicode) :=
      t.readAlike_render .ascii .unicode false
    exact ⟨halike, halike.parse_toOption_eq Term.parse_eq_ok_iff DerivesTerm.of_sameSenses⟩

/-- A name that is no identifier is read as what it happens to spell. -/
example : outline ((Proposition.and (.atom "T'") (.atom "⇒ (_")).format .ascii) =
    some [(.ident, some "T'"), (.and, none), (.implies, none), (.lparen, none),
      (.falsity, none)] := by
  decide +kernel

end Sequitur
