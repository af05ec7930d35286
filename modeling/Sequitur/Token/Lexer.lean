import Sequitur.SyntaxError
import Sequitur.Text.Blank
import Sequitur.Token.Stream

/-! # Cutting a text into tokens

The lexer is a machine that reads one character at a time. Between tokens it
holds nothing; inside a word, or after the first character of a symbol of
two characters, it holds what it has read of the token. Words are as long as
possible. Blanks separate tokens and are dropped.
-/

namespace Sequitur.Lexer

/-- The part of a token read so far, with the column where it starts. -/
inductive Pending where
  | nothing
  /-- A word; its last character comes first. -/
  | word (chars : List Char) (column : Nat)
  /-- The first character of a symbol of two. -/
  | symbol (first : Char) (column : Nat)
  deriving DecidableEq

/-- The lexer between two characters: the column of the next one, the finished tokens, the last
of them first, and the unfinished token. -/
structure State where
  column : Nat
  tokens : List Token
  pending : Pending
  deriving DecidableEq

/-- The lexer before the first character. -/
def State.start : State :=
  ⟨1, [], .nothing⟩

/-- A character that begins a symbol of two characters. -/
def opensSymbolPair (c : Char) : Bool :=
  c == '-' || c == '=' || c == '/' || c == '\\'

namespace State

/-- Finish a token and go on behind the character at the current column. -/
def emit (state : State) (token : Token) : State :=
  ⟨state.column + 1, token :: state.tokens, .nothing⟩

/-- Go on behind the character at the current column with an unfinished token. -/
def hold (state : State) (pending : Pending) : State :=
  ⟨state.column + 1, state.tokens, pending⟩

/-- Read a character that continues no token. -/
def beginToken (state : State) (c : Char) : Except SyntaxError State :=
  if Text.isBlank c then .ok (state.hold .nothing)
  else if isWordStart c then .ok (state.hold (.word [c] state.column))
  else if opensSymbolPair c then .ok (state.hold (.symbol c state.column))
  else match Token.Kind.ofSymbol? c with
    | some kind => .ok (state.emit ⟨kind, String.ofList [c], state.column⟩)
    | none => .error (.unexpectedCharacter c state.column)

/-- Finish the unfinished token, which has to be a word if there is one. -/
def flush (state : State) : Except SyntaxError State :=
  match state.pending with
  | .nothing => .ok state
  | .word chars column =>
      let token := Token.word (String.ofList chars.reverse) column
      .ok { state with tokens := token :: state.tokens, pending := .nothing }
  | .symbol first column => .error (.unexpectedCharacter first column)

/-- Read one character. -/
def step (state : State) (c : Char) : Except SyntaxError State :=
  match state.pending with
  | .nothing => state.beginToken c
  | .word chars column =>
      if isWordPart c then .ok (state.hold (.word (c :: chars) column))
      else do (← state.flush).beginToken c
  | .symbol first column =>
      match Token.Kind.ofSymbolPair? first c with
      | some kind => .ok (state.emit ⟨kind, String.ofList [first, c], column⟩)
      | none => .error (.unexpectedCharacter first column)

/-- The finished tokens once the text has ended. -/
def finish (state : State) : Except SyntaxError TokenStream := do
  let state ← state.flush
  return ⟨state.tokens.reverse, state.column⟩

end State

/-- Read the characters one after another. -/
def run (state : State) (chars : List Char) : Except SyntaxError State :=
  chars.foldlM State.step state

end Sequitur.Lexer

namespace Sequitur

/-- Cut a whole text into tokens. -/
def TokenStream.ofText (text : String) : Except SyntaxError TokenStream := do
  (← Lexer.run .start text.toList).finish

end Sequitur
