import Sequitur.Parser.Term

/-! # Grammar rules

The parsers that can be called one after another on one token stream, as
data, and what each of them yields.
-/

namespace Sequitur.Parser

/-- A parser that can be called on a stream. -/
inductive Rule where
  | proposition
  | disjunction
  | conjunction
  | operand
  | term
  | simple
  | advance
  /-- Pass a token of the kind with the given name. -/
  | expect (label : String)
  deriving DecidableEq

/-- What a rule yields. -/
inductive Parsed where
  | proposition (value : Proposition)
  | term (value : Term)
  | token (value : Token)
  deriving DecidableEq

/-- Pass the current token if its kind has the given name. No token is of a kind that does not
exist. -/
def expectLabelled (label : String) : Parser Token :=
  match Token.Kind.ofLabel? label with
  | some kind => expect kind
  | none => fail (.nonexistent label)

/-- The parser that a rule calls. -/
def Rule.parser : Rule → Parser Parsed
  | .proposition => .proposition <$> Parser.proposition
  | .disjunction => .proposition <$> Parser.disjunction
  | .conjunction => .proposition <$> Parser.conjunction
  | .operand => .proposition <$> Parser.operand
  | .term => .term <$> Parser.term
  | .simple => .term <$> Parser.simple
  | .advance => .token <$> Parser.advance
  | .expect label => .token <$> expectLabelled label

/-- Call a rule: what it yields, and the stream that it leaves behind. -/
def Rule.call (rule : Rule) (stream : TokenStream) : Except SyntaxError Parsed × TokenStream :=
  rule.parser stream

end Sequitur.Parser
