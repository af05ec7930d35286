import Sequitur.Parser.Rule
import Sequitur.Proofs.Lookahead
import Sequitur.Proofs.Slices

/-! # Sequences of calls

Rules can be called one after another on the same stream, and a rule that
fails leaves the stream for the next one wherever it has come to. However the
calls are mixed, each of them ends, none of them goes back or leaves the tokens
of the text, a phrase is never read from no tokens, and a syntax error points
to a token that was still to be read when the call began.
-/

namespace Sequitur

namespace TokenStream

/-- The index of the current token of a stream among the tokens of the whole text. -/
def position (whole stream : TokenStream) : Nat :=
  whole.length - stream.length

theorem position_prepend (stream : TokenStream) (passed : List Token) :
    (stream.prepend passed).position stream = passed.length := by
  rw [position, length_prepend, Nat.add_sub_cancel]

/-- A stream is what is left of the whole text at its position. -/
theorem toList_eq_drop (stream : TokenStream) (passed : List Token) :
    stream.toList = (stream.prepend passed).toList.drop passed.length := by
  rw [toList_prepend, List.drop_left]

theorem length_lt_toList (stream : TokenStream) (passed : List Token) :
    passed.length < (stream.prepend passed).toList.length := by
  simp [toList, prepend]

end TokenStream

namespace Parser

open Grammar

variable {α β : Type}

/-! ## What one call does -/

theorem map_apply (f : α → β) (p : Parser α) (stream : TokenStream) :
    (f <$> p) stream = ((p stream).1.map f, (p stream).2) := by
  rw [map_eq_pure_bind]
  rcases hp : p stream with ⟨error | a, rest⟩
  · exact bind_of_error hp
  · exact bind_of_ok hp

theorem map_congr (f : α → β) {p q : Parser α} {stream : TokenStream} (hpq : p stream = q stream) :
    (f <$> p) stream = (f <$> q) stream := by
  rw [map_apply, map_apply, hpq]

/-- Called on the stream, the parser takes just the given tokens, even if it fails, and a failure is
blamed on a token of the stream. -/
structure Moves (p : Parser α) (stream : TokenStream) (taken : List Token) : Prop where
  left : stream = (p stream).2.prepend taken
  blamed : ∀ error, (p stream).1 = .error error →
    ∃ token ∈ stream.toList, error.column = token.column

theorem Moves.congr {p q : Parser α} {stream : TokenStream} {taken : List Token}
    (hq : q.Moves stream taken) (hpq : p stream = q stream) : p.Moves stream taken := by
  constructor
  · rw [hpq]
    exact hq.left
  · rw [hpq]
    exact hq.blamed

theorem Moves.map {p : Parser α} {stream : TokenStream} {taken : List Token}
    (hp : p.Moves stream taken) (f : α → β) : (f <$> p).Moves stream taken := by
  constructor
  · rw [map_apply]
    exact hp.left
  · intro error herror
    rw [map_apply] at herror
    apply hp.blamed
    cases houtcome : (p stream).1 with
    | error other =>
        rw [houtcome] at herror
        exact congrArg Except.error (Except.error.inj herror)
    | ok a =>
        rw [houtcome] at herror
        contradiction

/-- A parser that settles a stream takes something derived, or fails on the way. -/
theorem Settles.exists_moves {p : Parser α} {derives : List Token → α → Prop}
    {stream : TokenStream} (hp : p.Settles derives stream) :
    ∃ taken, p.Moves stream taken ∧ ∀ a, (p stream).1 = .ok a → derives taken a := by
  cases hp with
  | @takes tokens a rest hstream hderives htakes =>
      have hyields : p stream = (.ok a, rest) := by
        rw [hstream]
        exact htakes rest rfl
      refine ⟨tokens, ⟨by rw [hyields]; exact hstream, ?_⟩, ?_⟩
      · intro error herror
        rw [hyields] at herror
        contradiction
      · intro b hb
        rw [hyields] at hb
        rwa [← Except.ok.inj hb]
  | @refuses before bad hfront hcompletable hrefuses =>
      obtain ⟨wanted, hrefuses⟩ := hrefuses
      obtain ⟨taken, left, hleft, hparser⟩ := hrefuses stream hfront
      refine ⟨taken, ⟨by rw [hparser]; exact hleft, ?_⟩, ?_⟩
      · intro error herror
        rw [hparser] at herror
        refine ⟨bad, hfront.subset (by simp), ?_⟩
        rw [← Except.error.inj herror]
        rfl
      · intro a ha
        rw [hparser] at ha
        contradiction

theorem exists_moves_advance (stream : TokenStream) : ∃ taken, advance.Moves stream taken := by
  obtain ⟨taken, htaken⟩ := stream.exists_prepend_next
  refine ⟨taken, htaken, ?_⟩
  intro error herror
  contradiction

theorem moves_fail (wanted : Wanted) (stream : TokenStream) :
    (fail wanted : Parser α).Moves stream [] := by
  refine ⟨rfl, ?_⟩
  intro error herror
  obtain ⟨more, hstream⟩ := stream.exists_toList_eq_cons
  refine ⟨stream.current, by rw [hstream]; exact List.mem_cons_self, ?_⟩
  cases herror
  rfl

theorem exists_moves_expect (kind : Token.Kind) (stream : TokenStream) :
    ∃ taken, (expect kind).Moves stream taken := by
  by_cases heq : stream.current.kind = kind
  · have hexpect : expect kind stream = advance stream := by rw [expect_apply, if_pos heq]
    obtain ⟨taken, hadvance⟩ := exists_moves_advance stream
    exact ⟨taken, hadvance.congr hexpect⟩
  · have hexpect : expect kind stream = fail (.token kind) stream := by
      rw [expect_apply, if_neg heq]
    exact ⟨[], (moves_fail _ stream).congr hexpect⟩

theorem exists_moves_expectLabelled (label : String) (stream : TokenStream) :
    ∃ taken, (expectLabelled label).Moves stream taken := by
  unfold expectLabelled
  split
  next kind _ => exact exists_moves_expect kind stream
  next => exact ⟨[], moves_fail _ stream⟩

/-- A phrase has at least one token. -/
theorem Settles.exists_moves_map {p : Parser α} {derives : List Token → α → Prop}
    {stream : TokenStream} (hp : p.Settles derives stream)
    (hpos : ∀ {tokens a}, derives tokens a → 0 < tokens.length) (f : α → β) :
    ∃ taken, (f <$> p).Moves stream taken ∧
      ((∃ b, ((f <$> p) stream).1 = .ok b) → 0 < taken.length) := by
  obtain ⟨taken, hmoves, hderives⟩ := hp.exists_moves
  refine ⟨taken, hmoves.map f, ?_⟩
  rintro ⟨b, hb⟩
  rw [map_apply] at hb
  cases houtcome : (p stream).1 with
  | error error =>
      rw [houtcome] at hb
      contradiction
  | ok a => exact hpos (hderives a houtcome)

namespace Rule

/-- The rules that read a proposition or a term, and not just a token. -/
def readsPhrase : Rule → Bool
  | .advance => false
  | .expect _ => false
  | _ => true

/-- What any rule does to any stream. -/
theorem exists_moves (rule : Rule) (stream : TokenStream) :
    ∃ taken, rule.parser.Moves stream taken ∧
      (rule.readsPhrase = true → (∃ value, (rule.call stream).1 = .ok value) →
        0 < taken.length) := by
  have hlevel : ∀ level : Level, ∃ taken,
      (Parsed.proposition <$> atLevel level).Moves stream taken ∧
        ((∃ value, ((Parsed.proposition <$> atLevel level) stream).1 = .ok value) →
          0 < taken.length) :=
    fun level => (settles_atLevel level stream).exists_moves_map DerivesProposition.length_pos _
  cases rule with
  | proposition =>
      obtain ⟨taken, hmoves, hpos⟩ := hlevel (.joined .implies)
      exact ⟨taken, hmoves, fun _ => hpos⟩
  | disjunction =>
      obtain ⟨taken, hmoves, hpos⟩ := hlevel (.joined .or)
      exact ⟨taken, hmoves, fun _ => hpos⟩
  | conjunction =>
      obtain ⟨taken, hmoves, hpos⟩ := hlevel (.joined .and)
      exact ⟨taken, hmoves, fun _ => hpos⟩
  | operand =>
      obtain ⟨taken, hmoves, hpos⟩ := hlevel .operand
      exact ⟨taken, hmoves, fun _ => hpos⟩
  | term =>
      obtain ⟨taken, hmoves, hpos⟩ :=
        (settles_term stream).exists_moves_map DerivesTerm.length_pos Parsed.term
      exact ⟨taken, hmoves, fun _ => hpos⟩
  | simple =>
      obtain ⟨taken, hmoves, hpos⟩ :=
        (settles_simple stream).exists_moves_map DerivesTerm.length_pos Parsed.term
      exact ⟨taken, hmoves, fun _ => hpos⟩
  | advance =>
      obtain ⟨taken, hmoves⟩ := exists_moves_advance stream
      exact ⟨taken, hmoves.map Parsed.token, nofun⟩
  | expect label =>
      obtain ⟨taken, hmoves⟩ := exists_moves_expectLabelled label stream
      exact ⟨taken, hmoves.map Parsed.token, nofun⟩

end Rule

/-- The parser that a rule calls in a family of parsers. -/
def Rules.parser (rules : Rules) : Rule → Parser Parsed
  | .proposition => .proposition <$> rules.proposition
  | .disjunction => .proposition <$> rules.disjunction
  | .conjunction => .proposition <$> rules.conjunction
  | .operand => .proposition <$> rules.operand
  | .term => .term <$> rules.term
  | .simple => .term <$> rules.simple
  | .advance => .token <$> Parser.advance
  | .expect label => .token <$> expectLabelled label

/-- The calls that a call makes nest no deeper than four times the number of the tokens and the end
of the text: whatever is called there, it makes no difference. -/
theorem Rules.parser_iterate (rules : Rules) (rule : Rule) (stream : TokenStream) :
    (Rules.unfold^[4 * (stream.length + 1)] rules).parser rule stream = rule.call stream := by
  have hagree := agree_iterate (4 * (stream.length + 1)) rules
  cases rule with
  | proposition => exact map_congr _ (hagree.proposition stream (by omega))
  | disjunction => exact map_congr _ (hagree.disjunction stream (by omega))
  | conjunction => exact map_congr _ (hagree.conjunction stream (by omega))
  | operand => exact map_congr _ (hagree.operand stream (by omega))
  | term => exact map_congr _ (hagree.term stream (by omega))
  | simple => exact map_congr _ (hagree.simple stream (by omega))
  | advance => rfl
  | expect label => rfl

/-! ## One call after another -/

/-- A call of a rule: the stream that it was given, what came of it, and the stream that it left. -/
structure Call where
  rule : Rule
  before : TokenStream
  outcome : Except SyntaxError Parsed
  after : TokenStream

/-- Call rules one after another, each on the stream that the one before it left, whether that one
failed or not. -/
def trace (stream : TokenStream) : List Rule → List Call
  | [] => []
  | rule :: rules =>
      ⟨rule, stream, (rule.call stream).1, (rule.call stream).2⟩ ::
        trace (rule.call stream).2 rules

/-- What a call leaves is still a part of the text. -/
theorem Rule.exists_whole_eq {whole stream : TokenStream} {passed : List Token}
    (hwhole : whole = stream.prepend passed) (rule : Rule) :
    ∃ taken, whole = (rule.call stream).2.prepend (passed ++ taken) := by
  obtain ⟨taken, hmoves, -⟩ := rule.exists_moves stream
  refine ⟨taken, ?_⟩
  rw [hwhole, ← TokenStream.prepend_prepend]
  exact congrArg (TokenStream.prepend · passed) hmoves.left

/-- Every call of a sequence is made on a part of the text, and later calls on shorter parts. -/
theorem mem_trace {whole stream : TokenStream} {passed : List Token}
    (hwhole : whole = stream.prepend passed) {rules : List Rule} {call : Call}
    (hcall : call ∈ trace stream rules) :
    call.rule.call call.before = (call.outcome, call.after) ∧
      ∃ more, whole = call.before.prepend more ∧ passed.length ≤ more.length := by
  induction rules generalizing stream passed with
  | nil => exact absurd hcall List.not_mem_nil
  | cons rule rules ih =>
      rcases List.mem_cons.mp hcall with rfl | hlater
      · exact ⟨rfl, passed, hwhole, le_rfl⟩
      · obtain ⟨taken, hnext⟩ := rule.exists_whole_eq hwhole
        obtain ⟨houtcome, more, hmore, hle⟩ := ih hnext hlater
        refine ⟨houtcome, more, hmore, ?_⟩
        rw [List.length_append] at hle
        omega

/-- What is safe about a call in a text. -/
structure Call.Safe (call : Call) (text : String) (whole : TokenStream) : Prop where
  /-- The call ends: the rules come to its result whatever they would call at some depth. -/
  ends : ∀ rules : Rules,
    (Rules.unfold^[4 * (call.before.length + 1)] rules).parser call.rule call.before =
      (call.outcome, call.after)
  /-- It starts at a token of the text, or at its end. -/
  starts : whole.position call.before < whole.toList.length ∧
    call.before.toList = whole.toList.drop (whole.position call.before)
  /-- It stops at a token of the text, or at its end. -/
  stops : whole.position call.after < whole.toList.length ∧
    call.after.toList = whole.toList.drop (whole.position call.after)
  advances : whole.position call.before ≤ whole.position call.after
  consumes : call.rule.readsPhrase = true → (∃ value, call.outcome = .ok value) →
    whole.position call.before < whole.position call.after
  /-- A failure is blamed on a token that was still to be read. -/
  blames : ∀ error, call.outcome = .error error →
    ∃ index token, whole.position call.before ≤ index ∧ whole.toList[index]? = some token ∧
      error.column = token.column ∧ 1 ≤ error.column ∧ error.column ≤ text.toList.length + 1

theorem Call.safe {text : String} {call : Call} {passed : List Token}
    (htext : TokenStream.ofText text = .ok (call.before.prepend passed))
    (hcall : call.rule.call call.before = (call.outcome, call.after)) :
    call.Safe text (call.before.prepend passed) := by
  obtain ⟨taken, hmoves, hpos⟩ := call.rule.exists_moves call.before
  have houtcome : (call.rule.parser call.before).1 = call.outcome := congrArg Prod.fst hcall
  have hleft : (call.rule.parser call.before).2 = call.after := congrArg Prod.snd hcall
  have hbefore : call.before = call.after.prepend taken := by rw [← hleft]; exact hmoves.left
  have hwhole : call.before.prepend passed = call.after.prepend (passed ++ taken) := by
    rw [hbefore, TokenStream.prepend_prepend]
  have hstart : (call.before.prepend passed).position call.before = passed.length :=
    TokenStream.position_prepend _ _
  have hstop : (call.before.prepend passed).position call.after =
      passed.length + taken.length := by
    rw [hwhole, TokenStream.position_prepend, List.length_append]
  constructor
  · intro rules
    rw [Rules.parser_iterate, hcall]
  · rw [hstart]
    exact ⟨call.before.length_lt_toList passed, call.before.toList_eq_drop passed⟩
  · rw [hstop, hwhole, ← List.length_append]
    exact ⟨call.after.length_lt_toList _, call.after.toList_eq_drop _⟩
  · omega
  · intro hphrase hok
    rw [hcall] at hpos
    have := hpos hphrase hok
    omega
  · intro error herror
    obtain ⟨token, htoken, hcolumn⟩ := hmoves.blamed error (houtcome.trans herror)
    -- In the whole text the token stands behind those that were passed before the call.
    obtain ⟨index, hindex⟩ := List.mem_iff_getElem?.mp htoken
    have hmem : token ∈ (call.before.prepend passed).toList := by
      rw [TokenStream.toList_prepend]
      exact List.mem_append_right _ htoken
    obtain ⟨hlow, hhigh⟩ := (TokenStream.columns_of_ofText htext).2 token hmem
    refine ⟨passed.length + index, token, by omega, ?_, hcolumn, by omega, by omega⟩
    rw [TokenStream.toList_prepend, List.getElem?_append_right (Nat.le_add_right _ _),
      Nat.add_sub_cancel_left, hindex]

theorem pairwise_trace {whole stream : TokenStream} {passed : List Token}
    (hwhole : whole = stream.prepend passed) (rules : List Rule) :
    (trace stream rules).Pairwise fun earlier later =>
      whole.position earlier.after ≤ whole.position later.before := by
  induction rules generalizing stream passed with
  | nil => exact List.Pairwise.nil
  | cons rule rules ih =>
      obtain ⟨taken, hnext⟩ := rule.exists_whole_eq hwhole
      refine List.pairwise_cons.mpr ⟨?_, ih hnext⟩
      intro later hlater
      obtain ⟨-, more, hmore, hle⟩ := mem_trace hnext hlater
      have hposition : whole.position later.before = more.length := by
        rw [hmore, TokenStream.position_prepend]
      have hafter : whole.position (rule.call stream).2 = (passed ++ taken).length := by
        rw [hnext, TokenStream.position_prepend]
      rw [hposition]
      exact hafter.trans_le hle

end Parser

/-- Calls of rules on the tokens of a text are safe, in whatever order they are made and whether or
not earlier ones failed: each of them ends, it starts and stops within the tokens, it does not go
back, if it reads a phrase it takes a token, and if it fails the error has the column of a token at
or behind the one where it started, which is a column of the text or the one behind it. From one
call to the next the position does not decrease either. -/
theorem calls_stay_within_tokens (text : String) (whole : TokenStream)
    (htext : TokenStream.ofText text = .ok whole) (rules : List Parser.Rule) :
    (∀ call ∈ Parser.trace whole rules, call.Safe text whole) ∧
      (Parser.trace whole rules).Pairwise fun earlier later =>
        whole.position earlier.after ≤ whole.position later.before := by
  refine ⟨?_, Parser.pairwise_trace (TokenStream.prepend_nil whole).symm rules⟩
  intro call hcall
  obtain ⟨houtcome, more, rfl, -⟩ := Parser.mem_trace (TokenStream.prepend_nil whole).symm hcall
  exact Parser.Call.safe htext houtcome

/-- A term is read up to a parenthesis that no proposition begins with. A simple term does not begin
with it either but passes it, and the next one lacks its argument. At the end of the text nothing is
passed any more. -/
theorem calls_stay_within_tokens_failing :
    ∃ whole, TokenStream.ofText "f ) fst" = .ok whole ∧
      (Parser.trace whole [.term, .proposition, .simple, .simple, .advance, .expect "EOF",
          .expect "end"]).map
        (fun call => (whole.position call.before, call.outcome.toBool,
          whole.position call.after)) =
        [(0, true, 1), (1, false, 1), (1, false, 2), (2, false, 3), (3, true, 3), (3, true, 3),
          (3, false, 3)] ∧
      (∀ call ∈ Parser.trace whole [.term, .proposition, .simple, .simple, .advance,
          .expect "EOF", .expect "end"], call.Safe "f ) fst" whole) ∧
      (Parser.trace whole [.term, .proposition, .simple, .simple, .advance, .expect "EOF",
          .expect "end"]).Pairwise fun earlier later =>
        whole.position earlier.after ≤ whole.position later.before := by
  have htext : TokenStream.ofText "f ) fst" =
      .ok ⟨[⟨.ident, "f", 1⟩, ⟨.rparen, ")", 3⟩, ⟨.fst, "fst", 5⟩], 8⟩ := by
    cbv
  exact ⟨_, htext, by cbv, calls_stay_within_tokens _ _ htext _⟩

end Sequitur
