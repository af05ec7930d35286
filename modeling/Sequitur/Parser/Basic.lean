import Sequitur.SyntaxError
import Sequitur.Token.Lexer

/-! # Parsers

A parser reads tokens from the front of a stream. It ends with a value or
with a syntax error, and in both cases with the stream that it leaves
behind, so that reading can go on after a failure.
-/

namespace Sequitur

/-- A reader of token streams that leaves a stream behind even when it fails. -/
abbrev Parser (α : Type) : Type :=
  ExceptT SyntaxError (StateM TokenStream) α

namespace Parser

/-- The current token, which is not passed. -/
def peek : Parser Token := do
  return (← get).current

/-- Pass the current token. The end of the text is never passed. -/
def advance : Parser Token := do
  let stream ← get
  set stream.next
  return stream.current

/-- Fail at the current token without passing it. -/
def fail {α : Type} (wanted : Wanted) : Parser α := do
  throw (.unexpectedToken wanted (← peek))

/-- Pass the current token if it is of the given kind, else fail without passing it. -/
def expect (kind : Token.Kind) : Parser Token := do
  if (← peek).kind = kind then advance else fail (.token kind)

/-- Whether the current token is of the given kind. -/
def sees (kind : Token.Kind) : Parser Bool := do
  return (← peek).kind = kind

/-- Apply a parser to the stream, with a bound on its depth that the stream itself provides. No
parser nests deeper than there are tokens, so the bound is never reached. -/
def bounded {α : Type} (parser : Nat → Parser α) : Parser α := do
  parser ((← get).length + 1)

/-- What a parser reads, up to the end of the text. -/
def whole {α : Type} (parser : Parser α) : Parser α := do
  let value ← parser
  let _ ← expect .eof
  return value

/-- Read a whole text. -/
def read {α : Type} (parser : Parser α) (text : String) : Except SyntaxError α := do
  (parser.whole (← TokenStream.ofText text)).1

end Parser

end Sequitur
