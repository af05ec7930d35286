import Sequitur.Parser.Term
import Sequitur.Typing

/-! # Tactics

A tactic works on one sequent. It closes the goal with a term, or it opens
exactly one subgoal, together with the frame into which a term for the
subgoal has to be put to become a term for the goal. A tactic that does not
apply says why and changes nothing.
-/

namespace Sequitur

/-- A term with one hole. -/
inductive Frame where
  /-- A function whose body is the hole. -/
  | lam (name : String) (domain : Proposition)
  /-- The application of a variable to the hole. -/
  | app (function : String)
  deriving DecidableEq

/-- Put a term into the hole. -/
def Frame.fill (frame : Frame) (term : Term) : Term :=
  match frame with
  | .lam name domain => .lam name domain term
  | .app function => .app (.var function) term

/-- What a tactic does to a goal. -/
inductive Step where
  | closed (term : Term)
  | subgoal (sequent : Sequent) (frame : Frame)
  deriving DecidableEq

/-- Why a tactic does not apply. -/
inductive TacticError where
  | notIntroducible
  | missingArgument (tactic : String)
  | invalidName (name : String)
  | unreadableTerm (error : SyntaxError)
  | wrongTerm (error : TypingError)
  | unknownHypothesis (name : String)
  | notFunction
  | wrongConclusion
  | cutUnavailable
  | unknownCommand (name : String)
  deriving DecidableEq

namespace TacticError

/-- The kind of a tactic error. A term that does not fit has the kind of its typing error. -/
def kind : TacticError → ErrorKind
  | .notIntroducible => .shapeMismatch
  | .missingArgument _ => .missingArgument
  | .invalidName _ => .syntaxError
  | .unreadableTerm _ => .syntaxError
  | .wrongTerm error => error.kind
  | .unknownHypothesis _ => .unboundVariable
  | .notFunction => .shapeMismatch
  | .wrongConclusion => .typeMismatch
  | .cutUnavailable => .notImplemented
  | .unknownCommand _ => .unknownCommand

/-- The text of a tactic error. -/
def message : TacticError → String
  | .notIntroducible => "Don't know how to introduce this."
  | .missingArgument tactic => "Please provide an argument for " ++ tactic ++ "."
  | .invalidName name => "Invalid name for intro: " ++ name
  | .unreadableTerm error => "Could not parse term: " ++ error.message
  | .wrongTerm error => "Not the right type. " ++ error.message
  | .unknownHypothesis name => "Unknown hypothesis: " ++ name ++ "."
  | .notFunction => "Argument provided is not a function."
  | .wrongConclusion => "The specified function return type does not match the goal."
  | .cutUnavailable => "The cut tactic is not implemented."
  | .unknownCommand name => "Unknown command: " ++ name

end TacticError

/-- A line as a command: the part in front of the first space, and the rest without blanks at its
ends. -/
structure Command where
  name : String
  argument : String
  deriving DecidableEq

/-- Whether a character is not the space that ends the name of a command. -/
def Command.isNamePart (c : Char) : Bool :=
  c != ' '

/-- Split a line at its first space. -/
def Command.ofLine (line : String) : Command where
  name := String.ofList (line.toList.takeWhile isNamePart)
  argument := Text.trim (String.ofList ((line.toList.dropWhile isNamePart).drop 1))

namespace Sequent

/-- Assume the antecedent of an implication under a name and go on with its consequent. -/
def intro (sequent : Sequent) (name : String) : Except TacticError Step :=
  match sequent.goal with
  | .implies a b =>
      if name = "" then .error (.missingArgument "intro")
      else if isIdentifier name then
        .ok (.subgoal ⟨sequent.context.extend name a, b⟩ (.lam name a))
      else .error (.invalidName name)
  | _ => .error .notIntroducible

/-- Close the goal with a term that is written out in full. -/
def exact (sequent : Sequent) (text : String) : Except TacticError Step :=
  match Term.parse text with
  | .error error => .error (.unreadableTerm error)
  | .ok term =>
      match term.check sequent.context sequent.goal with
      | .error error => .error (.wrongTerm error)
      | .ok () => .ok (.closed term)

/-- Apply a hypothesis whose consequent is the goal and go on with its antecedent. The name is looked
up only if it is bound. -/
def elim (sequent : Sequent) (name : String) : Except TacticError Step :=
  if name = "" then .error (.missingArgument "elim")
  else if hbound : sequent.context.contains name = true then
    match sequent.context.get name hbound with
    | .implies a b =>
        if b = sequent.goal then .ok (.subgoal ⟨sequent.context, a⟩ (.app name))
        else .error .wrongConclusion
    | _ => .error .notFunction
  else .error (.unknownHypothesis name)

/-- Run the tactic that a command names. The cut tactic has a name and always fails. -/
def perform (sequent : Sequent) (command : Command) : Except TacticError Step :=
  match command.name with
  | "intro" => sequent.intro command.argument
  | "exact" => sequent.exact command.argument
  | "elim" => sequent.elim command.argument
  | "cut" => .error .cutUnavailable
  | name => .error (.unknownCommand name)

/-- Run the tactic that a line of text names. -/
def performLine (sequent : Sequent) (line : String) : Except TacticError Step :=
  sequent.perform (.ofLine line)

end Sequent

end Sequitur
