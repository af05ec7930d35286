import Sequitur.Text.Blank

/-! # Lines

In a text file a line feed, a carriage return, or the two in that order end a
line; on standard input only a line feed does, and carriage returns are part of
the line. A last line need not be ended, and an ended text has no further empty
line.
-/

namespace Sequitur.Text

/-- A carriage return or a line feed. -/
def isLineEnd (c : Char) : Bool :=
  c == '\r' || c == '\n'

/-- A line without the carriage returns and line feeds at its end. -/
def chomp (line : String) : String :=
  String.ofList (dropEndWhile isLineEnd line.toList)

/-- Put a character in front of the first line, which it opens if there is none. -/
def consFirst (c : Char) : List (List Char) → List (List Char)
  | [] => [[c]]
  | line :: rest => (c :: line) :: rest

/-- The lines of a text file as lists of characters, without their ends. -/
def charLines : List Char → List (List Char)
  | [] => []
  | '\r' :: '\n' :: rest => [] :: charLines rest
  | c :: rest => if isLineEnd c then [] :: charLines rest else consFirst c (charLines rest)

/-- The lines of a text file, without their ends. -/
def lines (text : String) : List String :=
  (charLines text.toList).map String.ofList

/-- The lines of standard input as lists of characters, without their line feeds. -/
def charInputLines : List Char → List (List Char)
  | [] => []
  | c :: rest =>
      if c == '\n' then [] :: charInputLines rest else consFirst c (charInputLines rest)

/-- The lines of standard input, without their line feeds. -/
def inputLines (text : String) : List String :=
  (charInputLines text.toList).map String.ofList

/-- The text in which every line is ended by one line feed. -/
def unlines (lines : List String) : String :=
  String.join (lines.map (· ++ "\n"))

end Sequitur.Text
