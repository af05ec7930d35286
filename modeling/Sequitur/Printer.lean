import Sequitur.Context
import Sequitur.Term
import Sequitur.Text.Blank

/-! # Printing

Propositions and terms are written with ASCII words or with symbols, in a
form that reads back as the same value. A compound part stands in
parentheses, the whole does not.
-/

namespace Sequitur

/-- The two ways to write connectives and binders. -/
inductive Charset where
  | ascii
  | unicode
  deriving DecidableEq

/-- The spellings that a charset chooses. -/
structure Glyphs where
  implies : String
  and : String
  or : String
  truth : String
  falsity : String
  lambda : String
  arrow : String
  turnstile : String

/-- The spellings of a charset. -/
def Charset.glyphs : Charset → Glyphs
  | .ascii => ⟨"=>", "/\\", "\\/", "T", "_", "fun", "->", "|-"⟩
  | .unicode => ⟨"⇒", "∧", "∨", "⊤", "⊥", "λ", "→", "⊢"⟩

/-- A text, in parentheses if it is nested. -/
def enclose (nested : Bool) (text : String) : String :=
  if nested then "(" ++ text ++ ")" else text

/-- The text of a proposition, alone or as a part of another one. -/
def Proposition.render (glyphs : Glyphs) (nested : Bool) : Proposition → String
  | .atom name => name
  | .truth => glyphs.truth
  | .falsity => glyphs.falsity
  | .implies a b =>
      enclose nested (a.render glyphs true ++ " " ++ glyphs.implies ++ " " ++ b.render glyphs true)
  | .and a b =>
      enclose nested (a.render glyphs true ++ " " ++ glyphs.and ++ " " ++ b.render glyphs true)
  | .or a b =>
      enclose nested (a.render glyphs true ++ " " ++ glyphs.or ++ " " ++ b.render glyphs true)

/-- The text of a proposition. -/
def Proposition.format (charset : Charset) (p : Proposition) : String :=
  p.render charset.glyphs false

/-- The text of a term, alone or as a part of another one. -/
def Term.render (glyphs : Glyphs) (nested : Bool) : Term → String
  | .var name => name
  | .unit => "()"
  | .pair l r => "(" ++ l.render glyphs false ++ " , " ++ r.render glyphs false ++ ")"
  | .fst t => "fst(" ++ t.render glyphs false ++ ")"
  | .snd t => "snd(" ++ t.render glyphs false ++ ")"
  | .inl t other => "left(" ++ t.render glyphs false ++ "," ++ other.render glyphs false ++ ")"
  | .inr other t => "right(" ++ other.render glyphs false ++ "," ++ t.render glyphs false ++ ")"
  | .absurd t target =>
      "absurd(" ++ t.render glyphs false ++ "," ++ target.render glyphs false ++ ")"
  | .app f x => enclose nested (f.render glyphs true ++ " " ++ x.render glyphs true)
  | .lam name domain body =>
      enclose nested (glyphs.lambda ++
        " (" ++ name ++ " : " ++ domain.render glyphs false ++ ") " ++
        glyphs.arrow ++ " " ++ body.render glyphs false)
  | .cases t x u y v =>
      enclose nested ("case " ++ t.render glyphs true ++ " of " ++
        x ++ " " ++ glyphs.arrow ++ " " ++ u.render glyphs true ++ " | " ++
        y ++ " " ++ glyphs.arrow ++ " " ++ v.render glyphs true)

/-- The text of a term. -/
def Term.format (charset : Charset) (term : Term) : String :=
  term.render charset.glyphs false

/-- The text of a named hypothesis. -/
def formatBinding (charset : Charset) (binding : String × Proposition) : String :=
  binding.1 ++ " : " ++ binding.2.format charset

/-- The text of a context: its bindings in the order in which they were added. -/
def Context.format (charset : Charset) (context : Context) : String :=
  ", ".intercalate (context.toList.map (formatBinding charset))

/-- The text of a sequent, without blanks at its front. -/
def Sequent.format (charset : Charset) (sequent : Sequent) : String :=
  Text.trimLeft (sequent.context.format charset ++ " " ++ charset.glyphs.turnstile ++ " " ++
    sequent.goal.format charset)

end Sequitur
