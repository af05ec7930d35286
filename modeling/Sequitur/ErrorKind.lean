/-! # Kinds of errors

Every error of the prover belongs to one of nine kinds.
-/

namespace Sequitur

/-- What sort of thing went wrong. -/
inductive ErrorKind where
  | unboundVariable
  | shapeMismatch
  | typeMismatch
  | missingArgument
  | unknownCommand
  | notImplemented
  | syntaxError
  | endOfInput
  | integrity
  deriving DecidableEq

/-- The name of a kind. -/
def ErrorKind.text : ErrorKind → String
  | .unboundVariable => "unbound variable"
  | .shapeMismatch => "shape mismatch"
  | .typeMismatch => "type mismatch"
  | .missingArgument => "missing argument"
  | .unknownCommand => "unknown command"
  | .notImplemented => "not implemented"
  | .syntaxError => "syntax error"
  | .endOfInput => "end of input"
  | .integrity => "integrity"

end Sequitur
