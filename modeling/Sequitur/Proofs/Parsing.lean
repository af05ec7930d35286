import Sequitur.Parser.Basic
import Sequitur.Proofs.Lexing

/-! # Running parsers

What the basic parsers do to a stream, and how a sequence of parsers is taken
apart. A parser that succeeds leaves behind a stream from whose front it has
taken some tokens: the stream it was given is the one it leaves with those
tokens put back.
-/

namespace Sequitur

namespace TokenStream

/-- Put tokens in front of a stream. -/
def prepend (stream : TokenStream) (tokens : List Token) : TokenStream :=
  ⟨tokens ++ stream.tokens, stream.stop⟩

@[simp]
theorem prepend_nil (stream : TokenStream) : stream.prepend [] = stream :=
  rfl

@[simp]
theorem prepend_prepend (stream : TokenStream) (front back : List Token) :
    (stream.prepend back).prepend front = stream.prepend (front ++ back) := by
  simp [prepend]

theorem prepend_cons (stream : TokenStream) (token : Token) (tokens : List Token) :
    stream.prepend (token :: tokens) = (stream.prepend tokens).prepend [token] :=
  rfl

@[simp]
theorem current_prepend_cons (stream : TokenStream) (token : Token) (tokens : List Token) :
    (stream.prepend (token :: tokens)).current = token :=
  rfl

theorem length_prepend (stream : TokenStream) (tokens : List Token) :
    (stream.prepend tokens).length = tokens.length + stream.length := by
  simp [prepend, length]

/-- Unless it is the end of the text, the current token stands in front of the rest. -/
theorem prepend_current {stream : TokenStream} (hkind : stream.current.kind ≠ .eof) :
    stream.next.prepend [stream.current] = stream := by
  obtain ⟨tokens, stop⟩ := stream
  cases tokens with
  | nil => exact absurd rfl hkind
  | cons token tokens => rfl

/-- A stream has come to the end of the text, or a token stands in front of it. -/
theorem eof_or_prepend (stream : TokenStream) :
    stream.current.kind = .eof ∨
      ∃ (token : Token) (rest : TokenStream), stream = rest.prepend [token] := by
  by_cases hkind : stream.current.kind = .eof
  · exact Or.inl hkind
  · exact Or.inr ⟨stream.current, stream.next, (prepend_current hkind).symm⟩

end TokenStream

namespace Parser

variable {α β : Type}

/-- A parser reads a value from the front of a stream and leaves the rest behind. -/
def Yields (parser : Parser α) (stream : TokenStream) (a : α) (rest : TokenStream) : Prop :=
  parser stream = (.ok a, rest)

theorem Yields.unique {parser : Parser α} {stream rest final : TokenStream} {a b : α}
    (ha : parser.Yields stream a rest) (hb : parser.Yields stream b final) : a = b := by
  have hresult : Except.ok a = .ok b := congrArg Prod.fst (ha.symm.trans hb)
  exact Except.ok.inj hresult

theorem yields_pure {a b : α} {stream rest : TokenStream} :
    (pure a : Parser α).Yields stream b rest ↔ a = b ∧ stream = rest := by
  change ((.ok a, stream) : Except SyntaxError α × TokenStream) = (.ok b, rest) ↔ _
  simp

/-- The second parser goes on where the first one stopped. -/
theorem yields_bind {parser : Parser α} {f : α → Parser β} {stream final : TokenStream} {b : β} :
    (parser >>= f).Yields stream b final ↔
      ∃ a rest, parser.Yields stream a rest ∧ (f a).Yields rest b final := by
  have happly : (parser >>= f) stream = ExceptT.bindCont f (parser stream).1 (parser stream).2 :=
    rfl
  unfold Yields
  rw [happly]
  rcases parser stream with ⟨result, rest⟩
  cases result with
  | error error =>
      change ((.error error, rest) : Except SyntaxError β × TokenStream) = (.ok b, final) ↔
        ∃ a other, ((.error error, rest) : Except SyntaxError α × TokenStream) = (.ok a, other) ∧ _
      simp
  | ok a =>
      constructor
      · intro hf
        exact ⟨a, rest, rfl, hf⟩
      · rintro ⟨c, other, heq, hf⟩
        cases heq
        exact hf

theorem yields_bind_pure {parser : Parser α} {f : α → β} {stream rest : TokenStream} {b : β} :
    (parser >>= fun a => pure (f a)).Yields stream b rest ↔
      ∃ a, parser.Yields stream a rest ∧ b = f a := by
  simp only [yields_bind, yields_pure]
  constructor
  · rintro ⟨a, _, ha, rfl, rfl⟩
    exact ⟨a, ha, rfl⟩
  · rintro ⟨a, ha, rfl⟩
    exact ⟨a, rest, ha, rfl, rfl⟩

/-! ## Parsers that look at the current token

Each of them stands at the front of a sequence, so it is described together
with what follows it.
-/

theorem yields_peek_bind {f : Token → Parser β} {stream final : TokenStream} {b : β} :
    (peek >>= f).Yields stream b final ↔ (f stream.current).Yields stream b final :=
  Iff.rfl

theorem yields_sees_bind {kind : Token.Kind} {f : Bool → Parser β}
    {stream final : TokenStream} {b : β} :
    (sees kind >>= f).Yields stream b final ↔
      (f (decide (stream.current.kind = kind))).Yields stream b final :=
  Iff.rfl

theorem yields_advance_bind {f : Token → Parser β} {stream final : TokenStream} {b : β} :
    (advance >>= f).Yields stream b final ↔ (f stream.current).Yields stream.next b final :=
  Iff.rfl

theorem yields_advance_prepend {f : Token → Parser β} {token : Token} {tokens : List Token}
    {stream final : TokenStream} {b : β} :
    (advance >>= f).Yields (stream.prepend (token :: tokens)) b final ↔
      (f token).Yields (stream.prepend tokens) b final :=
  Iff.rfl

theorem not_yields_fail {wanted : Wanted} {stream rest : TokenStream} {a : α} :
    ¬ (fail wanted : Parser α).Yields stream a rest := by
  intro hyields
  cases hyields

theorem not_yields_throw {error : SyntaxError} {stream rest : TokenStream} {a : α} :
    ¬ (throw error : Parser α).Yields stream a rest := by
  intro hyields
  cases hyields

theorem yields_bounded {parser : Nat → Parser α} {stream rest : TokenStream} {a : α} :
    (bounded parser).Yields stream a rest ↔
      (parser (stream.length + 1)).Yields stream a rest :=
  Iff.rfl

theorem yields_expect {kind : Token.Kind} {stream rest : TokenStream} {token : Token} :
    (expect kind).Yields stream token rest ↔
      stream.current.kind = kind ∧ stream.current = token ∧ stream.next = rest := by
  have hexpect : (expect kind).Yields stream token rest ↔
      (if stream.current.kind = kind then advance else fail (.token kind)).Yields
        stream token rest :=
    Iff.rfl
  rw [hexpect]
  split
  next heq =>
    rw [← bind_pure advance, yields_advance_bind, yields_pure]
    simp [heq]
  next hne => simp [hne, not_yields_fail]

/-- A token of the expected kind is taken from the front of the stream. -/
theorem yields_expect_bind (kind : Token.Kind) (hkind : kind ≠ .eof) {f : Token → Parser β}
    {stream final : TokenStream} {b : β} :
    (expect kind >>= f).Yields stream b final ↔
      ∃ token rest, token.kind = kind ∧ stream = rest.prepend [token] ∧
        (f token).Yields rest b final := by
  simp only [yields_bind, yields_expect]
  constructor
  · rintro ⟨token, rest, ⟨heq, rfl, rfl⟩, hf⟩
    refine ⟨stream.current, stream.next, heq, (TokenStream.prepend_current ?_).symm, hf⟩
    rw [heq]
    exact hkind
  · rintro ⟨token, rest, heq, rfl, hf⟩
    exact ⟨token, rest, ⟨heq, rfl, rfl⟩, hf⟩

/-- A token of the given kind is taken if it is there. -/
theorem yields_sees_ite (kind : Token.Kind) (hkind : kind ≠ .eof) {taken left : Parser β}
    {stream final : TokenStream} {b : β} :
    (sees kind >>= fun seen => if seen = true then advance >>= fun _ => taken else left).Yields
        stream b final ↔
      (∃ token rest, token.kind = kind ∧ stream = rest.prepend [token] ∧
        taken.Yields rest b final) ∨
      stream.current.kind ≠ kind ∧ left.Yields stream b final := by
  rw [yields_sees_bind]
  by_cases heq : stream.current.kind = kind
  · have hstream : stream.next.prepend [stream.current] = stream :=
      TokenStream.prepend_current (by rw [heq]; exact hkind)
    simp only [heq, decide_true, if_true, yields_advance_bind, ne_eq, not_true_eq_false,
      false_and, or_false]
    constructor
    · intro htaken
      exact ⟨stream.current, stream.next, heq, hstream.symm, htaken⟩
    · rintro ⟨token, rest, -, rfl, htaken⟩
      exact htaken
  · simp only [heq, decide_false, Bool.false_eq_true, if_false, ne_eq, not_false_eq_true,
      true_and]
    constructor
    · exact Or.inr
    · rintro (⟨token, rest, htoken, rfl, -⟩ | hleft)
      · exact absurd htoken heq
      · exact hleft

/-- Every value that a parser reads is derived from the tokens that it takes. -/
def Sound (parser : Parser α) (derives : List Token → α → Prop) : Prop :=
  ∀ ⦃stream : TokenStream⦄ ⦃a : α⦄ ⦃rest : TokenStream⦄, parser.Yields stream a rest →
    ∃ tokens, stream = rest.prepend tokens ∧ derives tokens a

theorem fst_eq_ok {parser : Parser α} {stream : TokenStream} {a : α} :
    (parser stream).1 = .ok a ↔ ∃ rest, parser.Yields stream a rest := by
  constructor
  · intro hfst
    exact ⟨(parser stream).2, Prod.ext hfst rfl⟩
  · rintro ⟨rest, hyields⟩
    exact congrArg Prod.fst hyields

theorem yields_whole {parser : Parser α} {stream final : TokenStream} {a : α} :
    parser.whole.Yields stream a final ↔
      ∃ rest, parser.Yields stream a rest ∧ rest.current.kind = .eof ∧ final = rest.next := by
  simp only [whole, yields_bind, yields_expect, yields_pure]
  constructor
  · rintro ⟨_, rest, hparser, _, _, ⟨heof, -, rfl⟩, rfl, rfl⟩
    exact ⟨rest, hparser, heof, rfl⟩
  · rintro ⟨rest, hparser, heof, rfl⟩
    exact ⟨a, rest, hparser, _, _, ⟨heof, rfl, rfl⟩, rfl, rfl⟩

/-- A whole text is read if a value is read from its tokens and nothing is left. -/
theorem read_eq_ok {parser : Parser α} {text : String} {a : α} :
    parser.read text = .ok a ↔
      ∃ stream rest, TokenStream.ofText text = .ok stream ∧ parser.Yields stream a rest ∧
        rest.current.kind = .eof := by
  rw [read, Failure.bind_eq_ok]
  simp only [fst_eq_ok, yields_whole]
  constructor
  · rintro ⟨stream, hstream, _, rest, hparser, heof, -⟩
    exact ⟨stream, rest, hstream, hparser, heof⟩
  · rintro ⟨stream, rest, hstream, hparser, heof⟩
    exact ⟨stream, hstream, _, rest, hparser, heof, rfl⟩

/-- A parser that reads from the front of a stream just what is derived, and is not put off by the
end of the text, reads from whole texts just what is derived from their tokens. -/
theorem read_eq_ok_iff_derives {parser : Parser α} {derives : List Token → α → Prop}
    (hsound : parser.Sound derives)
    (hcomplete : ∀ {tokens : List Token} {a : α} {rest : TokenStream}, derives tokens a →
      rest.current.kind = .eof → parser.Yields (rest.prepend tokens) a rest)
    (text : String) (a : α) :
    parser.read text = .ok a ↔
      ∃ stream, TokenStream.ofText text = .ok stream ∧ derives stream.tokens a := by
  rw [read_eq_ok]
  constructor
  · rintro ⟨stream, ⟨left, stop⟩, hstream, hyields, heof⟩
    obtain ⟨tokens, rfl, hderives⟩ := hsound hyields
    refine ⟨_, hstream, ?_⟩
    cases left with
    | nil => simpa [TokenStream.prepend] using hderives
    | cons token left =>
        -- No token of a text is of the kind that marks its end.
        have htoken : token ∈ (TokenStream.prepend ⟨token :: left, stop⟩ tokens).tokens := by
          simp [TokenStream.prepend]
        exact absurd heof (TokenStream.wellSpelled_of_ofText hstream token htoken).1
  · rintro ⟨⟨tokens, stop⟩, hstream, hderives⟩
    have hyields : parser.Yields (TokenStream.prepend ⟨[], stop⟩ tokens) a ⟨[], stop⟩ :=
      hcomplete hderives rfl
    exact ⟨_, ⟨[], stop⟩, hstream, by simpa [TokenStream.prepend] using hyields, rfl⟩

end Parser

end Sequitur
