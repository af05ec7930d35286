import Sequitur.Printer
import Sequitur.Tactic
import Sequitur.Text.Line

/-! # Elaboration

A goal is proved by a sequence of command lines. There is one open sequent
at any time. Each line is run as a tactic on it: a failure is reported and
leaves the sequent as it is, a subgoal takes its place, and a closing term is
put into the frames of the goals above it.

An elaboration keeps what happened, line by line. The transcript and the
display are read off that history.
-/

namespace Sequitur

/-- One line that was read: the sequent that was open, the line, and why its tactic failed, if it
did. -/
structure Exchange where
  sequent : Sequent
  line : String
  failure : Option TacticError
  deriving DecidableEq

/-- How an elaboration ends: with a term for the first goal, or without lines while a sequent is
open. -/
inductive Elaboration.Ending where
  | proved (term : Term)
  | exhausted (sequent : Sequent)
  deriving DecidableEq

/-- The history of a goal and its end. -/
structure Elaboration where
  exchanges : List Exchange
  ending : Elaboration.Ending
  deriving DecidableEq

namespace Elaboration

/-- Put the term of an ending into a frame. -/
def Ending.fill (frame : Frame) : Ending → Ending
  | .proved term => .proved (frame.fill term)
  | .exhausted sequent => .exhausted sequent

/-- An elaboration with one more exchange at its front. -/
def after (exchange : Exchange) (rest : Elaboration) : Elaboration :=
  ⟨exchange :: rest.exchanges, rest.ending⟩

/-- An elaboration of a subgoal, as one of the goal whose frame is given. -/
def within (frame : Frame) (sub : Elaboration) : Elaboration :=
  ⟨sub.exchanges, sub.ending.fill frame⟩

/-- Work on a sequent with the given lines. Line ends are not part of a line. -/
def run (sequent : Sequent) : List String → Elaboration
  | [] => ⟨[], .exhausted sequent⟩
  | line :: rest =>
      let command := Text.chomp line
      match sequent.performLine command with
      | .error error => after ⟨sequent, command, some error⟩ (run sequent rest)
      | .ok (.closed term) => ⟨[⟨sequent, command, none⟩], .proved term⟩
      | .ok (.subgoal sub frame) =>
          after ⟨sequent, command, none⟩ (within frame (run sub rest))

/-- The lines that were read, in order and without their ends. -/
def linesRead (elaboration : Elaboration) : List String :=
  elaboration.exchanges.map (·.line)

/-- The lines that were read, each ended by a line feed. -/
def transcript (elaboration : Elaboration) : String :=
  Text.unlines elaboration.linesRead

end Elaboration

/-- What a display shows of an elaboration besides the failures of tactics. -/
structure Display where
  /-- Show the open sequent and the prompt before each line. -/
  verbose : Bool
  /-- The text that asks for a line; empty for none. -/
  prompt : String
  /-- Show each line that is read. -/
  echo : Bool
  charset : Charset
  deriving DecidableEq

namespace Display

/-- What is shown before a line is read. -/
def ask (display : Display) (sequent : Sequent) : String :=
  if display.verbose then sequent.format display.charset ++ "\n" ++ display.prompt else ""

/-- What is shown when a line has been read. -/
def echoed (display : Display) (line : String) : String :=
  if display.echo then line ++ "\n" else ""

/-- What is shown of a failure. -/
def report : Option TacticError → String
  | some error => error.message ++ "\n"
  | none => ""

/-- What is shown of one exchange. -/
def exchange (display : Display) (exchange : Exchange) : String :=
  display.ask exchange.sequent ++ display.echoed exchange.line ++ report exchange.failure

/-- What is shown when no further line is read. -/
def ending (display : Display) : Elaboration.Ending → String
  | .proved _ => ""
  | .exhausted sequent => display.ask sequent

/-- What is shown of a whole elaboration. -/
def elaboration (display : Display) (elaboration : Elaboration) : String :=
  String.join (elaboration.exchanges.map display.exchange) ++ display.ending elaboration.ending

end Display

end Sequitur
