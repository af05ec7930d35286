import Sequitur.Elaboration
import Sequitur.Parser.Proposition

/-! # Sessions

A session reads a goal from its first line and proves it with the lines that
follow. The term that is found is checked against the goal once more, so
that a finished proof does not rest on the tactics.
-/

namespace Sequitur

/-- A goal with a term that proves it. -/
structure Proof where
  goal : Proposition
  term : Term
  deriving DecidableEq

/-- A proof as one line: the term, a colon, the goal. -/
def Proof.format (proof : Proof) : String :=
  proof.term.format .ascii ++ " : " ++ proof.goal.format .ascii

/-- Why a session ends without a proof. -/
inductive SessionError where
  | endOfInput
  | unreadableGoal (error : SyntaxError)
  | integrity (error : TypingError)
  deriving DecidableEq

namespace SessionError

/-- The kind of a session error. -/
def kind : SessionError → ErrorKind
  | .endOfInput => .endOfInput
  | .unreadableGoal error => error.kind
  | .integrity _ => .integrity

/-- The text of a session error. -/
def message : SessionError → String
  | .endOfInput => "End of input while a goal is still open."
  | .unreadableGoal error => error.message
  | .integrity error => "Proof term does not prove the goal: " ++ error.message

end SessionError

/-- What happened in a session: no line was there, the goal line could not be read, or the goal
was worked on. -/
inductive Session where
  | noGoal
  | unreadableGoal (line : String) (error : SyntaxError)
  | worked (line : String) (goal : Proposition) (elaboration : Elaboration)
  deriving DecidableEq

namespace Session

/-- A session in which the given engine works on the goal. -/
def runWith (engine : Sequent → List String → Elaboration) : List String → Session
  | [] => .noGoal
  | first :: rest =>
      let line := Text.chomp first
      match Proposition.parse line with
      | .error error => .unreadableGoal line error
      | .ok goal => .worked line goal (engine ⟨.empty, goal⟩ rest)

/-- A session with tactics. -/
def run (lines : List String) : Session :=
  runWith Elaboration.run lines

/-- The proof that an elaboration comes to, or why it comes to none. Its term is checked once
more. -/
def verdict (goal : Proposition) : Elaboration.Ending → Except SessionError Proof
  | .exhausted _ => .error .endOfInput
  | .proved term =>
      match term.check .empty goal with
      | .ok () => .ok ⟨goal, term⟩
      | .error error => .error (.integrity error)

/-- The proof that a session found, or why it found none. -/
def result : Session → Except SessionError Proof
  | .noGoal => .error .endOfInput
  | .unreadableGoal _ error => .error (.unreadableGoal error)
  | .worked _ goal elaboration => verdict goal elaboration.ending

/-- The goal line, if there was one. -/
def goalLine? : Session → Option String
  | .noGoal => none
  | .unreadableGoal line _ => some line
  | .worked line _ _ => some line

/-- The lines that tactics were read from. -/
def tacticLines : Session → List String
  | .noGoal => []
  | .unreadableGoal _ _ => []
  | .worked _ _ elaboration => elaboration.linesRead

/-- All lines that a session read, in order and without their ends. -/
def linesRead (session : Session) : List String :=
  session.goalLine?.toList ++ session.tacticLines

/-- How a session talks. -/
structure Settings where
  /-- Ask for the goal and for each tactic. -/
  interactive : Bool
  /-- Show sequents and progress. -/
  verbose : Bool
  /-- Show each tactic line that is read. -/
  echo : Bool
  charset : Charset
  deriving DecidableEq

/-- The text that asks for a tactic. -/
def prompt : String :=
  "? "

/-- How a session shows its elaboration. -/
def Settings.display (settings : Settings) : Display where
  verbose := settings.verbose
  prompt := if settings.interactive then prompt else ""
  echo := settings.echo
  charset := settings.charset

/-- The lines that a session leaves to be read again. The goal is among them only if it was asked
for. -/
def transcript (settings : Settings) (session : Session) : String :=
  Text.unlines (if settings.interactive then session.linesRead else session.tacticLines)

/-- A text that is shown in verbose sessions only. -/
def Settings.say (settings : Settings) (text : String) : String :=
  if settings.verbose then text else ""

/-- What is shown before the goal is read. -/
def Settings.heading (settings : Settings) : String :=
  settings.say (if settings.interactive then "Please enter the formula to prove:\n" else "Goal:\n")

/-- What is shown of the last check of a proof. -/
def Settings.closing (settings : Settings) (goal : Proposition) : Elaboration.Ending → String
  | .exhausted _ => ""
  | .proved term =>
      settings.say ("done.\nProof term is\n" ++ term.format settings.charset ++
        "\nTypechecking... ") ++
      match term.check .empty goal with
      | .ok () => settings.say "ok.\n"
      | .error _ => ""

/-- Everything that a session shows. -/
def display (settings : Settings) : Session → String
  | .noGoal => settings.heading
  | .unreadableGoal line _ => settings.heading ++ settings.say (line ++ "\n")
  | .worked line goal elaboration =>
      settings.heading ++ settings.say (line ++ "\nLet's prove it.\n") ++
        settings.display.elaboration elaboration ++ settings.closing goal elaboration.ending

end Session

end Sequitur
