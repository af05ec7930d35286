/-! # Tokens

The words and symbols of the written form of propositions and terms. Several
spellings may stand for one kind of token; a token keeps its own spelling
and the column where it starts, counted in characters from one.
-/

namespace Sequitur

/-- What a token stands for. -/
inductive Token.Kind where
  | arrow
  | implies
  | and
  | or
  | ident
  | falsity
  | lparen
  | rparen
  | comma
  | colon
  | pipe
  | lambda
  | case
  | of
  | fst
  | snd
  | left
  | right
  | absurd
  | not
  | truth
  | eof
  deriving DecidableEq

namespace Token.Kind

/-- The name of a kind in diagnostics. -/
def label : Kind → String
  | .arrow => "ARROW"
  | .implies => "IMPLIES"
  | .and => "AND"
  | .or => "OR"
  | .ident => "IDENT"
  | .falsity => "FALSE"
  | .lparen => "LPAREN"
  | .rparen => "RPAREN"
  | .comma => "COMMA"
  | .colon => "COLON"
  | .pipe => "PIPE"
  | .lambda => "FUN"
  | .case => "CASE"
  | .of => "OF"
  | .fst => "FST"
  | .snd => "SND"
  | .left => "LEFT"
  | .right => "RIGHT"
  | .absurd => "ABSURD"
  | .not => "NOT"
  | .truth => "TRUE"
  | .eof => "EOF"

/-- All kinds of tokens. -/
def all : List Kind :=
  [.arrow, .implies, .and, .or, .ident, .falsity, .lparen, .rparen, .comma, .colon, .pipe,
   .lambda, .case, .of, .fst, .snd, .left, .right, .absurd, .not, .truth, .eof]

/-- The kind with a given name. -/
def ofLabel? (label : String) : Option Kind :=
  all.find? fun kind => kind.label == label

/-- The kind that a reserved word stands for. -/
def ofKeyword? : String → Option Kind
  | "fun" => some .lambda
  | "case" => some .case
  | "of" => some .of
  | "fst" => some .fst
  | "snd" => some .snd
  | "left" => some .left
  | "right" => some .right
  | "absurd" => some .absurd
  | "not" => some .not
  | "T" => some .truth
  | _ => none

/-- The kind of a word: its own if it is reserved, else that of identifiers. -/
def ofWord (word : String) : Kind :=
  (ofKeyword? word).getD .ident

/-- The kind of a symbol of one character. -/
def ofSymbol? : Char → Option Kind
  | '_' => some .falsity
  | '(' => some .lparen
  | ')' => some .rparen
  | ',' => some .comma
  | ':' => some .colon
  | '|' => some .pipe
  | 'λ' => some .lambda
  | '→' => some .arrow
  | '⇒' => some .implies
  | '∧' => some .and
  | '∨' => some .or
  | '⊤' => some .truth
  | '⊥' => some .falsity
  | '¬' => some .not
  | _ => none

/-- The kind of a symbol of two characters. -/
def ofSymbolPair? : Char → Char → Option Kind
  | '-', '>' => some .arrow
  | '=', '>' => some .implies
  | '/', '\\' => some .and
  | '\\', '/' => some .or
  | _, _ => none

end Token.Kind

/-- A word or symbol at a place of a text. -/
structure Token where
  kind : Token.Kind
  text : String
  column : Nat
  deriving DecidableEq

namespace Token

/-- The end of a text, as a token without spelling. -/
def eof (column : Nat) : Token :=
  ⟨.eof, "", column⟩

/-- The token of a word. -/
def word (text : String) (column : Nat) : Token :=
  ⟨.ofWord text, text, column⟩

end Token

/-- A character that can begin a word: an ASCII letter. -/
def isWordStart (c : Char) : Bool :=
  c.isAlpha

/-- A character that can continue a word: an ASCII letter or digit, an underscore or a quote. -/
def isWordPart (c : Char) : Bool :=
  c.isAlphanum || c == '_' || c == '\x27'

/-- Whether the characters form a word. -/
def isWord : List Char → Bool
  | [] => false
  | c :: rest => isWordStart c && rest.all isWordPart

/-- A name that can be written, and referred to, as a variable or an atom: a word that is not
reserved. -/
def isIdentifier (name : String) : Bool :=
  isWord name.toList && (Token.Kind.ofKeyword? name).isNone

end Sequitur
