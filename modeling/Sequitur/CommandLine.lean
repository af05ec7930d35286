import Sequitur.Archive
import Sequitur.CommandLine.Options

/-! # The command line

One run of the program: it understands its arguments, asks for what they
leave open, and records or replays a proof. Everything it takes from its
surroundings, and everything it does to them, is a value.
-/

namespace Sequitur.CommandLine

/-- What follows the lines of standard input. -/
inductive InputEnd where
  /-- The input ends. -/
  | closed
  /-- The user interrupts the program when it waits for a further line. -/
  | interrupted
  /-- Nothing is known yet about further lines. -/
  | pending
  deriving DecidableEq

/-- Standard input: its lines without their line feeds, and what follows them. -/
structure Console where
  lines : List String
  ending : InputEnd
  deriving DecidableEq

/-- Standard input that holds a text. -/
def Console.ofText (text : String) (ending : InputEnd) : Console :=
  ⟨Text.inputLines text, ending⟩

/-- How a run ends. -/
inductive Status where
  | exit (code : Nat)
  /-- The run breaks off at a file name that no system call can take. -/
  | aborted (error : FileError)
  /-- The run needs a further line. -/
  | waiting
  deriving DecidableEq

/-- What a run leaves behind. -/
structure Outcome where
  status : Status
  stdout : String
  stderr : String
  folder : Folder
  deriving DecidableEq

/-- Put a text in front of what a run shows. -/
def Outcome.showing (outcome : Outcome) (text : String) : Outcome :=
  { outcome with stdout := text ++ outcome.stdout }

/-- What a run works on: a proof to replay or a proof to record. -/
inductive Task where
  | load (name : String)
  | new (name : String)
  deriving DecidableEq

/-- The name of the proof that a task works on. -/
def Task.name : Task → String
  | .load name => name
  | .new name => name

/-- A name that was given, unless it is empty. -/
def given? : Option String → Option String
  | some "" => none
  | name => name

/-- The task that the options name, if they name one. -/
def Options.task? (options : Options) : Option Task :=
  match given? options.load, given? options.new with
  | some name, _ => some (.load name)
  | none, some name => some (.new name)
  | none, none => none

/-- The charset that the options choose. -/
def Options.charset (options : Options) : Charset :=
  if options.unicode then .unicode else .ascii

/-- The line that says how the program is called. -/
def usage : String :=
  "usage: curry [-h] [--load NAME | --new NAME] [--unicode] [--quiet]\n"

/-- The help text. -/
def help : String :=
  usage ++
  "\nInteractive prover for intuitionistic propositional logic\n" ++
  "\noptions:\n" ++
  "  -h, --help   show this help message and exit\n" ++
  "  --load NAME  Replay the proof stored in NAME.proof\n" ++
  "  --new NAME   Prove interactively, recording to NAME.proof\n" ++
  "  --unicode    Display connectives as Unicode symbols\n" ++
  "  --quiet      Less output\n"

/-- What is said about a usage error. -/
def UsageError.report (error : UsageError) : String :=
  usage ++ "curry: error: " ++ error.message ++ "\n"

/-- Why the questions lead to no task. -/
inductive AskError where
  | noAnswer
  | invalid (answer : String)
  deriving DecidableEq

/-- The questions that were shown, and the task with the lines left over for it. -/
structure Dialogue where
  shown : String
  result : Except AskError (Task × List String)

/-- The question what to do. -/
def taskQuestion : String :=
  "Would you like to load the proof from a file? [y/n]\n"

/-- The question for the name of a proof file that is there. -/
def loadQuestion : String :=
  "Please specify the name of the file that contains the proof:\n"

/-- The question for the name of a proof file that is to be written. -/
def newQuestion : String :=
  "Please specify the name of the file that will store the proof:\n"

/-- Ask for the name of a proof file, after the question what to do. -/
def askName (question : String) (task : String → Task) : List String → Dialogue
  | [] => ⟨taskQuestion ++ question, .error .noAnswer⟩
  | name :: rest => ⟨taskQuestion ++ question, .ok (task (Text.trim name), rest)⟩

/-- Ask what to do, and under what name. -/
def ask : List String → Dialogue
  | [] => ⟨taskQuestion, .error .noAnswer⟩
  | line :: rest =>
      match Text.trim line with
      | "y" => askName loadQuestion .load rest
      | "n" => askName newQuestion .new rest
      | answer => ⟨taskQuestion, .error (.invalid answer)⟩

/-- A run that needs a line when the input is over. -/
def outOfInput (ending : InputEnd) (folder : Folder) (closed : Outcome) : Outcome :=
  match ending with
  | .closed => closed
  | .interrupted => ⟨.exit 130, "\nInterrupted.\n", "", folder⟩
  | .pending => ⟨.waiting, "", "", folder⟩

/-- A run whose proof file cannot be opened. -/
def cannotOpen (name : String) (folder : Folder) : FileError → Outcome
  | .nullCharacter => ⟨.aborted .nullCharacter, "", "", folder⟩
  | error =>
      let report := "Error: cannot open " ++ proofFile name ++ ": " ++ error.message ++ "\n"
      ⟨.exit 1, "", report, folder⟩

/-- A run whose session ends without a proof. -/
def failed (error : SessionError) (folder : Folder) : Outcome :=
  ⟨.exit 1, "", "\nError: " ++ error.message ++ "\n", folder⟩

/-- A run whose session is over. A quiet run shows the proof that it found. -/
def conclude (quiet : Bool) (settings : Session.Settings) (ending : InputEnd) (session : Session)
    (folder : Folder) : Outcome :=
  let outcome : Outcome := match session.result with
    | .ok proof => ⟨.exit 0, if quiet then proof.format ++ "\n" else "", "", folder⟩
    | .error .endOfInput => outOfInput ending folder (failed .endOfInput folder)
    | .error error => failed error folder
  outcome.showing (session.display settings)

/-- Carry out a task with the lines of standard input. -/
def perform (options : Options) (task : Task) (console : Console) (folder : Folder) : Outcome :=
  let verbose := !options.quiet
  match task with
  | .load name =>
      match folder.replay name with
      | .error error => cannotOpen name folder error
      | .ok session =>
          conclude options.quiet (.replaying verbose options.charset) .closed session folder
  | .new name =>
      let settings := .recording verbose options.charset
      match folder.record name settings console.lines with
      | .error error => cannotOpen name folder error
      | .ok (session, folder) => conclude options.quiet settings console.ending session folder

/-- Carry out what the options ask for. -/
def runOptions (options : Options) (console : Console) (folder : Folder) : Outcome :=
  match options.task? with
  | some task => perform options task console folder
  | none =>
      let dialogue := ask console.lines
      let outcome : Outcome := match dialogue.result with
        | .ok (task, rest) => perform options task { console with lines := rest } folder
        | .error .noAnswer =>
            outOfInput console.ending folder ⟨.exit 2, "", "No answer given.\n", folder⟩
        | .error (.invalid answer) =>
            ⟨.exit 2, "", "Invalid answer: " ++ Text.quote answer ++ "\n", folder⟩
      outcome.showing dialogue.shown

/-- One run of the program. -/
def run (arguments : List String) (console : Console) (folder : Folder) : Outcome :=
  match Options.parse arguments with
  | .error error => ⟨.exit 2, "", error.report, folder⟩
  | .ok .help => ⟨.exit 0, help, "", folder⟩
  | .ok (.run options) => runOptions options console folder

/-- The task of a run, once its arguments and the lines so far name one. -/
def task? (arguments : List String) (lines : List String) : Option Task :=
  match Options.parse arguments with
  | .ok (.run options) =>
      match options.task? with
      | some task => some task
      | none => (ask lines).result.toOption.map (·.1)
  | _ => none

end Sequitur.CommandLine
