import Sequitur.ErrorKind
import Sequitur.Text.Quoted
import Sequitur.Token

/-! # Syntax errors

A text that cannot be read has a first character that belongs to no token,
or a first token that cannot stand where it does.
-/

namespace Sequitur

/-- What the grammar asks for at a place. -/
inductive Wanted where
  | token (kind : Token.Kind)
  /-- A kind of tokens that does not exist. -/
  | nonexistent (label : String)
  | proposition
  | term
  deriving DecidableEq

/-- The name of what is wanted. -/
def Wanted.text : Wanted → String
  | .token kind => kind.label
  | .nonexistent label => label
  | .proposition => "a proposition"
  | .term => "a term"

/-- Why a text cannot be read. -/
inductive SyntaxError where
  | unexpectedCharacter (char : Char) (column : Nat)
  | unexpectedToken (wanted : Wanted) (found : Token)
  deriving DecidableEq

/-- A token as diagnostics show it: quoted, or named if it is the end of the text. -/
def Token.shown (token : Token) : String :=
  if token.kind = .eof then "end of input" else Text.quote token.text

namespace SyntaxError

/-- The column of the offending character or token. -/
def column : SyntaxError → Nat
  | .unexpectedCharacter _ column => column
  | .unexpectedToken _ found => found.column

/-- The text of a syntax error without its column. -/
def reason : SyntaxError → String
  | .unexpectedCharacter char _ => "Unexpected character: " ++ Text.quote (String.ofList [char])
  | .unexpectedToken wanted found => "Expected " ++ wanted.text ++ ", got " ++ found.shown

/-- The text of a syntax error. -/
def message (error : SyntaxError) : String :=
  "col " ++ toString error.column ++ ": " ++ error.reason

/-- Every syntax error is of one kind. -/
def kind (_ : SyntaxError) : ErrorKind :=
  .syntaxError

end SyntaxError

end Sequitur
