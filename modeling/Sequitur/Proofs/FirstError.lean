import Sequitur.Proofs.Lookahead
import Sequitur.Proofs.Slices

/-! # Where syntax errors are found

A reader that meets a syntax error has gone as far as it can. The tokens in
front of the one that it complains about are the beginning of something that
can be read, and with that token behind them nothing can be read any more,
whatever follows. The columns of the tokens of a text are all different, so
the column of the error names the token.
-/

namespace Sequitur

namespace Parser

open Grammar

variable {α : Type}

/-- The parser reads the stream as a whole. -/
def Accepts (parser : Parser α) (stream : TokenStream) : Prop :=
  ∃ a, (parser.whole stream).1 = .ok a

/-- The token is the first one that cannot stand where it does: what stands in front of it can be
continued, by tokens that can be spelled, to a stream that is accepted, and no stream is accepted
that begins with the same tokens and this one. -/
structure FirstImpossible (parser : Parser α) (before : List Token) (bad : Token) : Prop where
  continues : ∃ more : TokenStream, (∀ token ∈ more.tokens, token.Spelled) ∧
    parser.Accepts (more.prepend before)
  ends : ∀ stream : TokenStream, before ++ [bad] <+: stream.toList → ¬ parser.Accepts stream

theorem read_eq_whole (parser : Parser α) {text : String} {stream : TokenStream}
    (htext : TokenStream.ofText text = .ok stream) :
    parser.read text = (parser.whole stream).1 := by
  rw [read, htext]
  rfl

theorem accepts_iff {parser : Parser α} {stream : TokenStream} :
    parser.Accepts stream ↔ ∃ a rest, parser.Yields stream a rest ∧ rest.current.kind = .eof := by
  simp only [Accepts, fst_eq_ok, yields_whole]
  constructor
  · rintro ⟨a, _, rest, hparser, heof, -⟩
    exact ⟨a, rest, hparser, heof⟩
  · rintro ⟨a, rest, hparser, heof⟩
    exact ⟨a, _, rest, hparser, heof, rfl⟩

theorem whole_of_ne {parser : Parser α} {stream rest : TokenStream} {a : α}
    (hparser : parser.Yields stream a rest) (hne : rest.current.kind ≠ .eof) :
    (parser.whole stream).1 = .error (.unexpectedToken (.token .eof) rest.current) := by
  have hexpect := expect_of_ne hne
  rw [whole, bind_of_ok hparser, bind_of_error hexpect]

theorem whole_of_error {parser : Parser α} {stream rest : TokenStream} {error : SyntaxError}
    (hparser : parser stream = (.error error, rest)) : (parser.whole stream).1 = .error error := by
  rw [whole, bind_of_error hparser]

/-- What a parser takes is the beginning of no accepted stream that goes on with the token in front
of which it stopped. -/
theorem Takes.firstImpossible {parser : Parser α} {tokens : List Token} {a : α} {bad : Token}
    (htakes : parser.Takes tokens a bad) (hne : bad.kind ≠ .eof)
    (hended : parser.Yields (TokenStream.prepend ⟨[], 0⟩ tokens) a ⟨[], 0⟩) :
    parser.FirstImpossible tokens bad where
  continues := ⟨⟨[], 0⟩, by simp, accepts_iff.mpr ⟨a, _, hended, rfl⟩⟩
  ends := by
    intro stream hfront
    have hsplit : tokens ++ ([] ++ [bad]) <+: stream.toList := hfront
    obtain ⟨rest, rfl, hrest⟩ := TokenStream.exists_prepend_of_front hsplit
    have hcurrent : rest.current = bad := TokenStream.current_of_front hrest
    rintro ⟨b, hb⟩
    rw [whole_of_ne (htakes rest hcurrent) (by rwa [hcurrent])] at hb
    contradiction

theorem Refuses.firstImpossible {parser : Parser α} {before more : List Token} {bad : Token}
    (hrefuses : parser.Refuses before bad) (hmore : ∀ token ∈ more, token.Spelled) {a : α}
    (hended : parser.Yields (TokenStream.prepend ⟨[], 0⟩ (before ++ more)) a ⟨[], 0⟩) :
    parser.FirstImpossible before bad where
  continues := by
    refine ⟨⟨more, 0⟩, hmore, accepts_iff.mpr ⟨a, ⟨[], 0⟩, ?_, rfl⟩⟩
    simpa [TokenStream.prepend] using hended
  ends := by
    obtain ⟨wanted, hrefuses⟩ := hrefuses
    intro stream hfront
    obtain ⟨_, _, _, herror⟩ := hrefuses stream hfront
    rintro ⟨b, hb⟩
    rw [whole_of_error herror] at hb
    contradiction

/-- A parser that settles a stream, and reads what is derived if nothing follows it, complains about
the first impossible token. -/
theorem Settles.firstImpossible {parser : Parser α} {derives : List Token → α → Prop}
    {stream : TokenStream} (hsettles : parser.Settles derives stream)
    (hcomplete : ∀ {tokens a}, derives tokens a →
      parser.Yields (TokenStream.prepend ⟨[], 0⟩ tokens) a ⟨[], 0⟩)
    {error : SyntaxError} (herror : (parser.whole stream).1 = .error error) :
    ∃ before bad wanted, before ++ [bad] <+: stream.toList ∧
      error = .unexpectedToken wanted bad ∧ parser.FirstImpossible before bad := by
  cases hsettles with
  | @takes tokens a rest hstream hderives htakes =>
      have hyields : parser.Yields stream a rest := by
        rw [hstream]
        exact htakes rest rfl
      by_cases heof : rest.current.kind = .eof
      · obtain ⟨b, hb⟩ := accepts_iff.mpr ⟨a, rest, hyields, heof⟩
        rw [herror] at hb
        contradiction
      · rw [whole_of_ne hyields heof] at herror
        refine ⟨tokens, rest.current, _, ?_, (Except.error.inj herror).symm,
          htakes.firstImpossible heof (hcomplete hderives)⟩
        rw [hstream, TokenStream.toList_prepend]
        exact (List.prefix_append_right_inj tokens).mpr rest.current_front
  | @refuses before bad hfront hcompletable hrefuses =>
      obtain ⟨more, a, hmore, hderives⟩ := hcompletable
      have himpossible := hrefuses.firstImpossible hmore (hcomplete hderives)
      obtain ⟨wanted, hrefuses⟩ := hrefuses
      obtain ⟨_, _, _, hparser⟩ := hrefuses stream hfront
      rw [whole_of_error hparser] at herror
      exact ⟨before, bad, wanted, hfront, (Except.error.inj herror).symm, himpossible⟩

end Parser

/-- Different tokens of a text have different columns. -/
theorem TokenStream.column_ne_of_ofText {text : String} {stream : TokenStream}
    (htext : ofText text = .ok stream) {before after : List Token} {bad : Token}
    (hstream : stream.toList = before ++ bad :: after) :
    ∀ token ∈ before ++ after, token.column ≠ bad.column := by
  obtain ⟨hcolumns, -⟩ := columns_of_ofText htext
  rw [hstream, List.pairwise_append, List.pairwise_cons] at hcolumns
  obtain ⟨-, ⟨hafter, -⟩, hbefore⟩ := hcolumns
  refine List.forall_mem_append.mpr ⟨?_, ?_⟩
  · intro token htoken
    exact (hbefore token htoken bad List.mem_cons_self).ne
  · intro token htoken
    exact (hafter token htoken).ne'

/-- The place of a syntax error in the tokens of a text. -/
theorem Parser.Settles.exists_split {α : Type} {parser : Parser α}
    {derives : List Token → α → Prop} {text : String} {stream : TokenStream}
    (htext : TokenStream.ofText text = .ok stream) (hsettles : parser.Settles derives stream)
    (hcomplete : ∀ {tokens a}, derives tokens a →
      parser.Yields (TokenStream.prepend ⟨[], 0⟩ tokens) a ⟨[], 0⟩)
    {error : SyntaxError} (herror : parser.read text = .error error) :
    ∃ before bad after, stream.toList = before ++ bad :: after ∧ bad.column = error.column ∧
      (∀ token ∈ before ++ after, token.column ≠ error.column) ∧
      parser.FirstImpossible before bad := by
  rw [read_eq_whole parser htext] at herror
  obtain ⟨before, bad, wanted, ⟨after, hafter⟩, rfl, himpossible⟩ :=
    hsettles.firstImpossible hcomplete herror
  have hstream : stream.toList = before ++ bad :: after := by
    rw [← hafter, List.append_assoc, List.singleton_append]
  exact ⟨before, bad, after, hstream, rfl, TokenStream.column_ne_of_ofText htext hstream,
    himpossible⟩

/-- Syntax errors are found at the first impossible token. If a text has tokens and is not read as a
term, or not as a proposition, then the column of the error is the column of exactly one of the
tokens, the end of the text included. The tokens in front of that one can be continued to tokens
that are read, and no tokens are read that begin with them and that one. -/
theorem errors_at_first_impossible_token (text : String) (stream : TokenStream)
    (htext : TokenStream.ofText text = .ok stream) :
    (∀ error, Term.parse text = .error error →
      ∃ before bad after, stream.toList = before ++ bad :: after ∧ bad.column = error.column ∧
        (∀ token ∈ before ++ after, token.column ≠ error.column) ∧
        Parser.term.FirstImpossible before bad) ∧
    ∀ error, Proposition.parse text = .error error →
      ∃ before bad after, stream.toList = before ++ bad :: after ∧ bad.column = error.column ∧
        (∀ token ∈ before ++ after, token.column ≠ error.column) ∧
        Parser.proposition.FirstImpossible before bad := by
  constructor
  · intro error herror
    refine (Parser.settles_term stream).exists_split htext ?_ herror
    intro tokens t hderives
    exact hderives.term_yields rfl
  · intro error herror
    refine (Parser.settles_atLevel (.joined .implies) stream).exists_split htext ?_ herror
    intro tokens p hderives
    exact hderives.proposition_yields (Grammar.Level.stops_eof _)

/-- A pair that is not closed: as a term it lacks something at its end, and as a proposition it goes
wrong at the comma. -/
theorem errors_at_first_impossible_token_pair :
    ∃ stream, TokenStream.ofText "(t , u" = .ok stream ∧
      Term.parse "(t , u" = .error (.unexpectedToken (.token .rparen) (.eof 7)) ∧
      Proposition.parse "(t , u" = .error (.unexpectedToken (.token .rparen) ⟨.comma, ",", 4⟩) ∧
      (∃ before bad after, stream.toList = before ++ bad :: after ∧ bad.column = 7 ∧
        (∀ token ∈ before ++ after, token.column ≠ 7) ∧
        Parser.term.FirstImpossible before bad) ∧
      ∃ before bad after, stream.toList = before ++ bad :: after ∧ bad.column = 4 ∧
        (∀ token ∈ before ++ after, token.column ≠ 4) ∧
        Parser.proposition.FirstImpossible before bad := by
  have htext : TokenStream.ofText "(t , u" =
      .ok ⟨[⟨.lparen, "(", 1⟩, ⟨.ident, "t", 2⟩, ⟨.comma, ",", 4⟩, ⟨.ident, "u", 6⟩], 7⟩ := by
    cbv
  have hterm : Term.parse "(t , u" = .error (.unexpectedToken (.token .rparen) (.eof 7)) := by
    cbv
  have hproposition : Proposition.parse "(t , u" =
      .error (.unexpectedToken (.token .rparen) ⟨.comma, ",", 4⟩) := by
    cbv
  exact ⟨_, htext, hterm, hproposition, (errors_at_first_impossible_token _ _ htext).1 _ hterm,
    (errors_at_first_impossible_token _ _ htext).2 _ hproposition⟩

end Sequitur
