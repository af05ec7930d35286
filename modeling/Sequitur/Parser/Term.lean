import Sequitur.Parser.Proposition
import Sequitur.Term

/-! # Reading terms

Application associates to the left and takes simple terms as its parts: a
variable, or a form that is closed by a parenthesis. The body of a function
and the last branch of a case distinction reach as far as possible.
-/

namespace Sequitur

/-- The kinds of tokens that begin an argument of an application. -/
def Token.Kind.startsArgument : Token.Kind → Bool
  | .ident | .lparen | .fst | .snd | .left | .right | .absurd => true
  | _ => false

namespace Parser

/-- What a parser reads, between parentheses. -/
def parenthesised {α : Type} (inner : Parser α) : Parser α := do
  let _ ← expect .lparen
  let value ← inner
  let _ ← expect .rparen
  return value

/-- Two things between parentheses, with a comma between them. -/
def parenthesisedPair {α β : Type} (first : Parser α) (second : Parser β) : Parser (α × β) :=
  parenthesised do
    let a ← first
    let _ ← expect .comma
    let b ← second
    return (a, b)

/-- What follows an opening parenthesis: the unit, a term or a pair. -/
def afterParenthesis (term : Parser Term) : Parser Term := do
  if ← sees .rparen then
    let _ ← advance
    return .unit
  else
    let left ← term
    if ← sees .comma then
      let _ ← advance
      let right ← term
      let _ ← expect .rparen
      return .pair left right
    else
      let _ ← expect .rparen
      return left

/-- A simple term, with the parsers for what is inside it. The first token is passed even if no
simple term begins with it. -/
def simpleBody (proposition : Parser Proposition) (term : Parser Term) : Parser Term := do
  let token ← advance
  match token.kind with
  | .ident => return .var token.text
  | .lparen => afterParenthesis term
  | .fst => return .fst (← parenthesised term)
  | .snd => return .snd (← parenthesised term)
  | .left =>
      let (t, other) ← parenthesisedPair term proposition
      return .inl t other
  | .right =>
      let (other, t) ← parenthesisedPair proposition term
      return .inr other t
  | .absurd =>
      let (t, target) ← parenthesisedPair term proposition
      return .absurd t target
  | _ => throw (.unexpectedToken .term token)

/-- A simple term, with the parser for the terms inside it. -/
def simpleOf (term : Parser Term) : Parser Term :=
  simpleBody proposition term

/-- An argument and what follows it, or nothing. -/
def argumentsBody (argument : Parser Term) (arguments : Term → Parser Term) (function : Term) :
    Parser Term := do
  if (← peek).kind.startsArgument then
    let x ← argument
    arguments (.app function x)
  else
    return function

/-- Apply a term to the arguments that follow. The number bounds the arguments. -/
def applyArguments (argument : Parser Term) : Nat → Term → Parser Term
  | 0, function => return function
  | n + 1, function => argumentsBody argument (applyArguments argument n) function

/-- A simple term, applied to the arguments that follow. The number bounds the arguments. -/
def applicationOf (simple : Parser Term) (n : Nat) : Parser Term := do
  let function ← simple
  applyArguments simple n function

/-- A name in front of an arrow. -/
def binder : Parser String := do
  let name ← expect .ident
  let _ ← expect .arrow
  return name.text

/-- A name with its proposition, between parentheses and in front of an arrow. -/
def typedBinderBody (proposition : Parser Proposition) : Parser (String × Proposition) := do
  let _ ← expect .lparen
  let name ← expect .ident
  let _ ← expect .colon
  let domain ← proposition
  let _ ← expect .rparen
  let _ ← expect .arrow
  return (name.text, domain)

/-- Read a name with its proposition. -/
def typedBinder : Parser (String × Proposition) :=
  typedBinderBody proposition

/-- A function, a case distinction or an application. -/
def termBody (proposition : Parser Proposition) (term application : Parser Term) :
    Parser Term := do
  match (← peek).kind with
  | .lambda =>
      let _ ← advance
      let (name, domain) ← typedBinderBody proposition
      let body ← term
      return .lam name domain body
  | .case =>
      let _ ← advance
      let scrutinee ← term
      let _ ← expect .of
      let x ← binder
      let u ← term
      let _ ← expect .pipe
      let y ← binder
      let v ← term
      return .cases scrutinee x u y v
  | _ => application

/-- A term. The number bounds the nesting. -/
def termWithin : Nat → Parser Term
  | 0 => fail .term
  | n + 1 =>
      termBody proposition (termWithin n) (applicationOf (simpleOf (termWithin n)) n)

/-- Read a simple term. -/
def simple : Parser Term :=
  bounded fun n => simpleOf (termWithin n)

/-- Read a term as far as it goes. -/
def term : Parser Term :=
  bounded termWithin

end Parser

/-- Read a whole text as a term. -/
def Term.parse (text : String) : Except SyntaxError Term :=
  Parser.term.read text

end Sequitur
