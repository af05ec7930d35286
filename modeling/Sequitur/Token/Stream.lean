import Sequitur.Token

/-! # Token streams

The tokens that are still to be read, and the column where the text ends. A
stream always has a current token: behind the last one stands the end of the
text, and advancing there changes nothing.
-/

namespace Sequitur

/-- The tokens still to be read, followed by the end of the text. -/
structure TokenStream where
  tokens : List Token
  stop : Nat
  deriving DecidableEq

namespace TokenStream

/-- The tokens with the end of the text as the last one. -/
def toList (stream : TokenStream) : List Token :=
  stream.tokens ++ [.eof stream.stop]

/-- The first token, or the end of the text. -/
def current (stream : TokenStream) : Token :=
  stream.tokens.headD (.eof stream.stop)

/-- The stream behind its current token. -/
def next (stream : TokenStream) : TokenStream :=
  { stream with tokens := stream.tokens.tail }

/-- The number of tokens in front of the end of the text. -/
def length (stream : TokenStream) : Nat :=
  stream.tokens.length

end TokenStream

end Sequitur
