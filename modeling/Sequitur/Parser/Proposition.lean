import Sequitur.Parser.Basic
import Sequitur.Proposition

/-! # Reading propositions

Implication, disjunction and conjunction associate to the right; conjunction
binds tighter than disjunction, which binds tighter than implication.
Negation binds tightest. There is one parser for each level, and each of
them stops in front of the first token that cannot continue its level. What
a rule says is written once, as a body over the parsers that it calls; the
parsers put themselves into the bodies, with a bound on how often.
-/

namespace Sequitur.Parser

/-- An operand, and behind a connective that follows it the rest, joined to it. -/
def joinedBody (connective : Token.Kind) (join : Proposition → Proposition → Proposition)
    (operand rest : Parser Proposition) : Parser Proposition := do
  let left ← operand
  if ← sees connective then
    let _ ← advance
    let right ← rest
    return join left right
  else
    return left

/-- Operands joined to the right by an infix connective. The number bounds the operators. -/
def chainRight (connective : Token.Kind) (join : Proposition → Proposition → Proposition)
    (operand : Parser Proposition) : Nat → Parser Proposition
  | 0 => operand
  | n + 1 => joinedBody connective join operand (chainRight connective join operand n)

/-- Conjunctions of the given operands. -/
def conjunctionOf (operand : Parser Proposition) (n : Nat) : Parser Proposition :=
  chainRight .and .and operand n

/-- Disjunctions of conjunctions of the given operands. -/
def disjunctionOf (operand : Parser Proposition) (n : Nat) : Parser Proposition :=
  chainRight .or .or (conjunctionOf operand n) n

/-- Implications between disjunctions of conjunctions of the given operands. -/
def implicationOf (operand : Parser Proposition) (n : Nat) : Parser Proposition :=
  chainRight .implies .implies (disjunctionOf operand n) n

/-- A negation, an atom, a constant or a proposition in parentheses. -/
def operandBody (operand proposition : Parser Proposition) : Parser Proposition := do
  let token ← peek
  match token.kind with
  | .not =>
      let _ ← advance
      let p ← operand
      return p.negation
  | .ident =>
      let _ ← advance
      return .atom token.text
  | .truth =>
      let _ ← advance
      return .truth
  | .falsity =>
      let _ ← advance
      return .falsity
  | .lparen =>
      let _ ← advance
      let p ← proposition
      let _ ← expect .rparen
      return p
  | _ => fail .proposition

/-- A proposition that no infix connective joins. The number bounds the nesting. -/
def operandWithin : Nat → Parser Proposition
  | 0 => fail .proposition
  | n + 1 => operandBody (operandWithin n) (implicationOf (operandWithin n) n)

/-- Read a negation, an atom, a constant or a proposition in parentheses. -/
def operand : Parser Proposition :=
  bounded operandWithin

/-- Read a conjunction, or what binds tighter. -/
def conjunction : Parser Proposition :=
  bounded fun n => conjunctionOf (operandWithin n) n

/-- Read a disjunction, or what binds tighter. -/
def disjunction : Parser Proposition :=
  bounded fun n => disjunctionOf (operandWithin n) n

/-- Read a proposition as far as it goes. -/
def proposition : Parser Proposition :=
  bounded fun n => implicationOf (operandWithin n) n

end Sequitur.Parser

namespace Sequitur

/-- Read a whole text as a proposition. -/
def Proposition.parse (text : String) : Except SyntaxError Proposition :=
  Parser.proposition.read text

end Sequitur
