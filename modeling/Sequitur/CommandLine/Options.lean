import Sequitur.Text.Digit
import Sequitur.Text.Quoted

/-! # Command-line options

Every argument is classified before any option is carried out. Long options
may be shortened to a prefix that no other option has, and may carry their
value after an equals sign. The short help option may be repeated within one
argument. An argument that begins with a dash is a value only if it looks
like a negative number or holds a space.
-/

namespace Sequitur.CommandLine

/-- The options. -/
inductive Switch where
  | help
  | load
  | new
  | unicode
  | quiet
  deriving DecidableEq

namespace Switch

/-- All options, in the order in which the help text lists them. -/
def all : List Switch :=
  [.help, .load, .new, .unicode, .quiet]

/-- The long spelling of an option. -/
def long : Switch → String
  | .help => "--help"
  | .load => "--load"
  | .new => "--new"
  | .unicode => "--unicode"
  | .quiet => "--quiet"

/-- The name of an option in diagnostics: all its spellings. -/
def label : Switch → String
  | .help => "-h/--help"
  | switch => switch.long

/-- Whether an option is followed by a name. -/
def takesName : Switch → Bool
  | .load | .new => true
  | _ => false

/-- The option with exactly the given spelling. -/
def ofSpelling? (text : String) : Option Switch :=
  if text = "-h" then some .help else all.find? fun switch => switch.long == text

/-- The options whose long spelling begins with the given characters. -/
def startingWith (start : List Char) : List Switch :=
  all.filter fun switch => start.isPrefixOf switch.long.toList

end Switch

/-- Why the arguments cannot be understood. -/
inductive UsageError where
  | ambiguous (text : String) (candidates : List Switch)
  | missingName (switch : Switch)
  | ignoredValue (switch : Switch) (value : String)
  | excluded (switch other : Switch)
  | unrecognized (arguments : List String)
  deriving DecidableEq

/-- The text of a usage error. -/
def UsageError.message : UsageError → String
  | .ambiguous text candidates =>
      "ambiguous option: " ++ text ++ " could match " ++
        ", ".intercalate (candidates.map Switch.long)
  | .missingName switch => "argument " ++ switch.label ++ ": expected one argument"
  | .ignoredValue switch value =>
      "argument " ++ switch.label ++ ": ignored explicit argument " ++ Text.quote value
  | .excluded switch other =>
      "argument " ++ switch.label ++ ": not allowed with argument " ++ other.label
  | .unrecognized arguments => "unrecognized arguments: " ++ " ".intercalate arguments

/-- What an argument can be on its own. -/
inductive Argument where
  /-- No option: a name, if an option takes one in front of it. -/
  | plain (text : String)
  /-- An option, with the value after its equals sign. -/
  | switch (switch : Switch) (value : Option String)
  /-- The short help option with further letters, an equals sign in front of them dropped. -/
  | cluster (letters : List Char)
  /-- Spelled like an option, but none. -/
  | unknown (text : String)
  /-- Two dashes: no options follow. -/
  | separator
  deriving DecidableEq

/-- Nothing, or a single line feed. -/
def isEnd : List Char → Bool
  | [] => true
  | ['\n'] => true
  | _ => false

/-- Whether an argument looks like a negative number: a dash, and digits with at most one point,
which is not the last of them. A line feed may follow. -/
def looksNegative : List Char → Bool
  | '-' :: rest =>
      let whole := rest.takeWhile Text.isDecimalDigit
      match rest.dropWhile Text.isDecimalDigit with
      | '.' :: fraction =>
          !(fraction.takeWhile Text.isDecimalDigit).isEmpty &&
            isEnd (fraction.dropWhile Text.isDecimalDigit)
      | rest => !whole.isEmpty && isEnd rest
  | _ => false

/-- Classify an argument that begins with a dash and is no option: some are still values. -/
def classifyOther (text : String) : Argument :=
  if looksNegative text.toList || text.toList.contains ' ' then .plain text else .unknown text

/-- The value of an argument: what follows its first equals sign. -/
def valueOf? (chars : List Char) : Option String :=
  match chars.dropWhile (· != '=') with
  | [] => none
  | _ :: value => some (String.ofList value)

/-- Classify an argument that begins with two dashes and is not an option alone. No long option
begins with another one, so an option in full has no second candidate. -/
def classifyLong (text : String) : Except UsageError Argument :=
  match Switch.startingWith (text.toList.takeWhile (· != '=')) with
  | [] => .ok (classifyOther text)
  | [switch] => .ok (.switch switch (valueOf? text.toList))
  | candidates => .error (.ambiguous text candidates)

/-- Classify an argument on its own. -/
def classify (text : String) : Except UsageError Argument :=
  match Switch.ofSpelling? text with
  | some switch => .ok (.switch switch none)
  | none =>
      match text.toList with
      | '-' :: '-' :: _ => classifyLong text
      | '-' :: 'h' :: '=' :: letters => .ok (.cluster letters)
      | '-' :: 'h' :: letters => .ok (.cluster letters)
      | '-' :: _ :: _ => .ok (classifyOther text)
      | _ => .ok (.plain text)

/-- Classify all arguments. Behind two dashes there are no options. -/
def classifyAll : List String → Except UsageError (List Argument)
  | [] => .ok []
  | "--" :: rest => .ok (.separator :: rest.map .plain)
  | text :: rest => do
      let argument ← classify text
      let arguments ← classifyAll rest
      return argument :: arguments

/-- What stands behind the repeated help letters of a cluster, if that is a usage error: anything
at all, or nothing where even the first repetition is missing. -/
def clusterRest? (letters : List Char) : Option String :=
  match letters.dropWhile (· == 'h') with
  | [] => if letters.isEmpty then some "" else none
  | rest => some (String.ofList rest)

/-- What the options ask for. -/
structure Options where
  load : Option String
  new : Option String
  unicode : Bool
  quiet : Bool
  deriving DecidableEq

/-- No options. -/
def Options.initial : Options :=
  ⟨none, none, false, false⟩

/-- What the arguments ask for: the help text, or a run of the prover. -/
inductive Request where
  | help
  | run (options : Options)
  deriving DecidableEq

namespace Options

/-- The name that a value gives. Two dashes give the empty name. -/
def nameOf (value : String) : String :=
  if value = "--" then "" else value

/-- Take an option with a name. The two options that have one exclude each other, and of several
names the last counts. -/
def take (options : Options) (switch : Switch) (value : String) : Except UsageError Options :=
  match switch with
  | .load =>
      if options.new.isSome then .error (.excluded .load .new)
      else .ok { options with load := some (nameOf value) }
  | .new =>
      if options.load.isSome then .error (.excluded .new .load)
      else .ok { options with new := some (nameOf value) }
  | _ => .error (.ignoredValue switch value)

/-- Take an option without a name. -/
def flag (options : Options) : Switch → Options
  | .unicode => { options with unicode := true }
  | .quiet => { options with quiet := true }
  | _ => options

/-- Carry out the classified arguments from left to right. Help is given at once; what is not
understood is reported at the end. -/
def collect (options : Options) (rejected : List String) :
    List Argument → Except UsageError Request
  | [] => if rejected.isEmpty then .ok (.run options) else .error (.unrecognized rejected)
  | .plain text :: rest => options.collect (rejected ++ [text]) rest
  | .unknown text :: rest => options.collect (rejected ++ [text]) rest
  | .separator :: rest => options.collect (rejected ++ ["--"]) rest
  | .cluster letters :: _ =>
      match clusterRest? letters with
      | some rest => .error (.ignoredValue .help rest)
      | none => .ok .help
  | .switch .help none :: _ => .ok .help
  | .switch switch (some value) :: rest => do
      (← options.take switch value).collect rejected rest
  | .switch switch none :: .plain name :: rest =>
      if switch.takesName then do
        (← options.take switch name).collect rejected rest
      else (options.flag switch).collect (rejected ++ [name]) rest
  | .switch switch none :: rest =>
      if switch.takesName then .error (.missingName switch)
      else (options.flag switch).collect rejected rest

/-- Understand the arguments. -/
def parse (arguments : List String) : Except UsageError Request := do
  Options.initial.collect [] (← classifyAll arguments)

end Options

end Sequitur.CommandLine
