import Sequitur.Proofs.Recursion
import Sequitur.Proofs.Slices

/-! # One token of lookahead

A parser decides what to do by looking at one token behind those that it has
taken. If it succeeds, it does so in front of every stream that begins with
the same token. If it fails, it fails because of one token, whatever stands
behind that token, and the tokens in front of it are the beginning of something
that the grammar derives. So a failure is found at the first token that cannot
be right.
-/

namespace Sequitur

namespace TokenStream

theorem toList_prepend (stream : TokenStream) (tokens : List Token) :
    (stream.prepend tokens).toList = tokens ++ stream.toList := by
  simp [toList, prepend]

/-- A stream as its current token and what stands behind it. -/
theorem exists_toList_eq_cons (stream : TokenStream) :
    ∃ more, stream.toList = stream.current :: more := by
  obtain ⟨tokens, stop⟩ := stream
  cases tokens with
  | nil => exact ⟨[], rfl⟩
  | cons token tokens => exact ⟨tokens ++ [.eof stop], rfl⟩

theorem current_front (stream : TokenStream) : [] ++ [stream.current] <+: stream.toList := by
  obtain ⟨more, hstream⟩ := stream.exists_toList_eq_cons
  exact ⟨more, hstream.symm⟩

theorem current_of_front {stream : TokenStream} {token : Token} {more : List Token}
    (hfront : token :: more <+: stream.toList) : stream.current = token := by
  obtain ⟨rest, hstream⟩ := stream.exists_toList_eq_cons
  rw [hstream, List.cons_prefix_cons] at hfront
  exact hfront.1.symm

theorem current_congr {stream other : TokenStream} {before : List Token} {bad : Token}
    (hstream : before ++ [bad] <+: stream.toList) (hother : before ++ [bad] <+: other.toList) :
    other.current = stream.current := by
  cases before with
  | nil => rw [current_of_front hstream, current_of_front hother]
  | cons token before => rw [current_of_front hstream, current_of_front hother]

/-- Tokens in front of further ones can be taken off a stream. -/
theorem exists_prepend_of_front {stream : TokenStream} {tokens before : List Token} {bad : Token}
    (hfront : tokens ++ (before ++ [bad]) <+: stream.toList) :
    ∃ rest : TokenStream, stream = rest.prepend tokens ∧ before ++ [bad] <+: rest.toList := by
  obtain ⟨after, hafter⟩ := hfront
  have htokens : tokens <+: stream.tokens := by
    have hshort : tokens <+: stream.toList := ⟨_, by rw [← hafter, List.append_assoc]⟩
    have hlength := congrArg List.length hafter
    simp only [toList, List.length_append, List.length_cons, List.length_nil] at hlength
    exact List.prefix_of_prefix_length_le hshort ⟨_, rfl⟩ (by omega)
  obtain ⟨left, hleft⟩ := htokens
  refine ⟨⟨left, stream.stop⟩, by rw [prepend, hleft], after, ?_⟩
  rw [toList, ← hleft, List.append_assoc tokens, List.append_assoc tokens] at hafter
  exact List.append_cancel_left hafter

/-- The first token is the same in front of streams that begin with the same token. -/
theorem current_prepend_congr {rest other : TokenStream} (hcurrent : other.current = rest.current)
    (tokens : List Token) : (other.prepend tokens).current = (rest.prepend tokens).current := by
  cases tokens with
  | nil => exact hcurrent
  | cons token tokens => rfl

theorem exists_prepend_next (stream : TokenStream) :
    ∃ taken, stream = stream.next.prepend taken := by
  obtain ⟨tokens, stop⟩ := stream
  cases tokens with
  | nil => exact ⟨[], rfl⟩
  | cons token tokens => exact ⟨[token], rfl⟩

end TokenStream

namespace Token

/-- A token that is spelled as its kind demands. The end of the text is none. -/
def Spelled (token : Token) : Prop :=
  Lexer.Lexeme token.kind token.text.toList

/-- One of the spellings of a kind. Only the end of the text has none. -/
def Kind.spelling : Kind → List Char
  | .arrow => ['-', '>']
  | .implies => ['=', '>']
  | .and => ['/', '\\']
  | .or => ['\\', '/']
  | .ident => ['x']
  | .falsity => ['_']
  | .lparen => ['(']
  | .rparen => [')']
  | .comma => [',']
  | .colon => [':']
  | .pipe => ['|']
  | .lambda => ['λ']
  | .case => ['c', 'a', 's', 'e']
  | .of => ['o', 'f']
  | .fst => ['f', 's', 't']
  | .snd => ['s', 'n', 'd']
  | .left => ['l', 'e', 'f', 't']
  | .right => ['r', 'i', 'g', 'h', 't']
  | .absurd => ['a', 'b', 's', 'u', 'r', 'd']
  | .not => ['¬']
  | .truth => ['⊤']
  | .eof => []

/-- A token of the given kind, at no place of a text. -/
def sample (kind : Kind) : Token :=
  ⟨kind, String.ofList kind.spelling, 0⟩

theorem spelled_sample {kind : Kind} (hkind : kind ≠ .eof) : (sample kind).Spelled := by
  rw [Spelled, sample, String.toList_ofList]
  have hword : ∀ {kind : Kind}, isWord kind.spelling = true →
      Kind.ofWord (String.ofList kind.spelling) = kind → Lexer.Lexeme kind kind.spelling := by
    intro kind hword hof
    have hlexeme := Lexer.Lexeme.word hword
    rwa [hof] at hlexeme
  cases kind with
  | arrow | implies | and | or => exact .symbolPair rfl
  | ident | case | of | fst | snd | left | right | absurd => exact hword (by decide) (by decide)
  | eof => exact absurd rfl hkind
  | _ => exact .symbol rfl

end Token

namespace Parser

open Grammar

variable {α β : Type}

/-- In front of the token that follows, the parser takes just the given tokens and yields a value,
whatever stands further behind. -/
def Takes (p : Parser α) (tokens : List Token) (a : α) (follow : Token) : Prop :=
  ∀ rest : TokenStream, rest.current = follow → p.Yields (rest.prepend tokens) a rest

/-- The parser fails because of the token behind the given ones, whatever stands further behind. It
leaves behind a part of the stream. -/
def Refuses (p : Parser α) (before : List Token) (bad : Token) : Prop :=
  ∃ wanted, ∀ stream : TokenStream, before ++ [bad] <+: stream.toList →
    ∃ taken left, stream = left.prepend taken ∧
      p stream = (.error (.unexpectedToken wanted bad), left)

/-- Tokens that can be continued, by tokens that can be spelled, to something derived. -/
def Completable (derives : List Token → α → Prop) (before : List Token) : Prop :=
  ∃ more a, (∀ token ∈ more, token.Spelled) ∧ derives (before ++ more) a

/-- What a parser makes of a stream: it takes something derived, or it refuses a token behind the
beginning of something derived. -/
inductive Settles (p : Parser α) (derives : List Token → α → Prop) (stream : TokenStream) :
    Prop where
  | takes {tokens : List Token} {a : α} {rest : TokenStream}
      (hstream : stream = rest.prepend tokens) (hderives : derives tokens a)
      (htakes : p.Takes tokens a rest.current)
  | refuses {before : List Token} {bad : Token} (hfront : before ++ [bad] <+: stream.toList)
      (hcompletable : Completable derives before) (hrefuses : p.Refuses before bad)

/-- The parser settles every stream with fewer tokens than the bound. -/
def SettlesBelow (bound : Nat) (p : Parser α) (derives : List Token → α → Prop) : Prop :=
  ∀ stream : TokenStream, stream.length < bound → p.Settles derives stream

/-! ## Single tokens -/

/-- A single token is a way to whatever it makes up. -/
theorem completable_sample {derives : List Token → α → Prop} {kind : Token.Kind}
    (hkind : kind ≠ .eof) {a : α} (hderives : derives [.sample kind] a) :
    Completable derives [] := by
  refine ⟨[.sample kind], a, ?_, hderives⟩
  exact List.forall_mem_singleton.mpr (Token.spelled_sample hkind)

theorem expect_apply (kind : Token.Kind) (stream : TokenStream) :
    expect kind stream =
      if stream.current.kind = kind then advance stream else fail (.token kind) stream := by
  change (if stream.current.kind = kind then advance else fail (.token kind)) stream = _
  split <;> rfl

theorem expect_of_ne {kind : Token.Kind} {stream : TokenStream}
    (hne : stream.current.kind ≠ kind) :
    expect kind stream = (.error (.unexpectedToken (.token kind) stream.current), stream) := by
  rw [expect_apply, if_neg hne]
  rfl

theorem settles_pure {a : α} {derives : List Token → α → Prop} (hderives : derives [] a)
    (stream : TokenStream) : (pure a : Parser α).Settles derives stream := by
  apply Settles.takes (TokenStream.prepend_nil stream).symm hderives
  intro rest _
  exact yields_pure.mpr ⟨rfl, rfl⟩

theorem settles_fail (wanted : Wanted) {derives : List Token → α → Prop}
    (hcompletable : Completable derives []) (stream : TokenStream) :
    (fail wanted : Parser α).Settles derives stream := by
  refine .refuses stream.current_front hcompletable ⟨wanted, ?_⟩
  intro other hfront
  refine ⟨[], other, rfl, ?_⟩
  rw [← TokenStream.current_of_front hfront]
  rfl

/-- The current token decides what comes next. -/
theorem Settles.peek_bind {f : Token → Parser β} {derives : List Token → β → Prop}
    {stream : TokenStream} (hf : (f stream.current).Settles derives stream) :
    (peek >>= f).Settles derives stream := by
  cases hf with
  | @takes tokens b rest hstream hderives htakes =>
      refine .takes hstream hderives ?_
      intro other hother
      have hcurrent : (other.prepend tokens).current = stream.current := by
        rw [hstream, TokenStream.current_prepend_congr hother]
      rw [yields_peek_bind, hcurrent]
      exact htakes other hother
  | @refuses before bad hfront hcompletable hrefuses =>
      obtain ⟨wanted, hrefuses⟩ := hrefuses
      refine .refuses hfront hcompletable ⟨wanted, ?_⟩
      intro other hother
      rw [peek_bind_apply, TokenStream.current_congr hfront hother]
      exact hrefuses other hother

/-- Behind what the first parser takes, the second one settles the stream. -/
theorem Takes.settles_bind {p : Parser α} {f : α → Parser β} {derives : List Token → β → Prop}
    {tokens : List Token} {a : α} {rest : TokenStream} (hp : p.Takes tokens a rest.current)
    (hf : (f a).Settles (fun more b => derives (tokens ++ more) b) rest) :
    (p >>= f).Settles derives (rest.prepend tokens) := by
  cases hf with
  | @takes more b final hrest hderives htakes =>
      have hstream : rest.prepend tokens = final.prepend (tokens ++ more) := by
        rw [hrest, TokenStream.prepend_prepend]
      refine .takes hstream hderives ?_
      intro other hother
      have hcurrent : (other.prepend more).current = rest.current := by
        rw [hrest, TokenStream.current_prepend_congr hother]
      rw [← TokenStream.prepend_prepend]
      exact yields_bind.mpr ⟨a, other.prepend more, hp _ hcurrent, htakes other hother⟩
  | @refuses before bad hfront hcompletable hrefuses =>
      obtain ⟨wanted, hrefuses⟩ := hrefuses
      obtain ⟨more, b, hmore, hderives⟩ := hcompletable
      have htokens : tokens ++ before ++ [bad] <+: (rest.prepend tokens).toList := by
        rw [TokenStream.toList_prepend, List.append_assoc]
        exact (List.prefix_append_right_inj tokens).mpr hfront
      refine .refuses htokens ⟨more, b, hmore, by rwa [List.append_assoc]⟩ ⟨wanted, ?_⟩
      intro other hother
      rw [List.append_assoc] at hother
      obtain ⟨next, rfl, hnext⟩ := TokenStream.exists_prepend_of_front hother
      obtain ⟨taken, left, rfl, herror⟩ := hrefuses next hnext
      refine ⟨tokens ++ taken, left, TokenStream.prepend_prepend _ _ _, ?_⟩
      rw [bind_of_ok (hp _ (TokenStream.current_congr hfront hnext)), herror]

/-- A token is passed, and what follows is settled behind it. -/
theorem Settles.advance_bind {f : Token → Parser β} {derives : List Token → β → Prop}
    {stream : TokenStream} (hkind : stream.current.kind ≠ .eof)
    (hf : (f stream.current).Settles (fun more b => derives (stream.current :: more) b)
      stream.next) :
    (advance >>= f).Settles derives stream := by
  have hadvance : advance.Takes [stream.current] stream.current stream.next.current :=
    fun _ _ => rfl
  have hsettles := hadvance.settles_bind hf
  rwa [TokenStream.prepend_current hkind] at hsettles

/-- The second parser settles what the first one leaves. Where the first one refuses a token, its
completions have to be completable as well. -/
theorem Settles.bind {p : Parser α} {f : α → Parser β} {derives : List Token → α → Prop}
    {whole : List Token → β → Prop} {stream : TokenStream} (hp : p.Settles derives stream)
    (hf : ∀ tokens a rest, derives tokens a → stream = rest.prepend tokens →
      (f a).Settles (fun more b => whole (tokens ++ more) b) rest)
    (hcompletable : ∀ tokens a, derives tokens a →
      Completable (fun more b => whole (tokens ++ more) b) []) :
    (p >>= f).Settles whole stream := by
  cases hp with
  | @takes tokens a rest hstream hderives htakes =>
      rw [hstream]
      exact htakes.settles_bind (hf tokens a rest hderives hstream)
  | @refuses before bad hfront hcompleted hrefuses =>
      obtain ⟨more, a, hmore, hderives⟩ := hcompleted
      obtain ⟨further, b, hfurther, hwhole⟩ := hcompletable _ a hderives
      rw [List.nil_append, List.append_assoc] at hwhole
      refine .refuses hfront ⟨more ++ further, b, ?_, hwhole⟩ ?_
      · exact List.forall_mem_append.mpr ⟨hmore, hfurther⟩
      · obtain ⟨wanted, hrefuses⟩ := hrefuses
        refine ⟨wanted, ?_⟩
        intro other hother
        obtain ⟨taken, left, hleft, herror⟩ := hrefuses other hother
        exact ⟨taken, left, hleft, bind_of_error herror⟩

/-- A parser settles a stream with whatever follows from what it derives. -/
theorem Settles.imp {p : Parser α} {derives whole : List Token → α → Prop} {stream : TokenStream}
    (hp : p.Settles derives stream) (hwhole : ∀ tokens a, derives tokens a → whole tokens a) :
    p.Settles whole stream := by
  cases hp with
  | takes hstream hderives htakes => exact .takes hstream (hwhole _ _ hderives) htakes
  | refuses hfront hcompletable hrefuses =>
      obtain ⟨more, a, hmore, hderives⟩ := hcompletable
      exact .refuses hfront ⟨more, a, hmore, hwhole _ _ hderives⟩ hrefuses

/-- No token can stand at the beginning for which the parser gives up when it has passed it. -/
theorem settles_advance_throw (wanted : Wanted) {f : Token → Parser β}
    {derives : List Token → β → Prop} (hcompletable : Completable derives [])
    {stream : TokenStream}
    (hf : f stream.current = throw (.unexpectedToken wanted stream.current)) :
    (advance >>= f).Settles derives stream := by
  refine .refuses stream.current_front hcompletable ⟨wanted, ?_⟩
  intro other hfront
  obtain ⟨taken, htaken⟩ := other.exists_prepend_next
  refine ⟨taken, other.next, htaken, ?_⟩
  rw [advance_bind_apply, TokenStream.current_of_front hfront, hf]
  rfl

namespace SettlesBelow

theorem zero (p : Parser α) (derives : List Token → α → Prop) : SettlesBelow 0 p derives :=
  fun _ hlength => absurd hlength (Nat.not_lt_zero _)

theorem mono {m n : Nat} {p : Parser α} {derives : List Token → α → Prop}
    (hp : SettlesBelow n p derives) (hmn : m ≤ n) : SettlesBelow m p derives :=
  fun stream hlength => hp stream (Nat.lt_of_lt_of_le hlength hmn)

theorem pure {n : Nat} {a : α} {derives : List Token → α → Prop} (hderives : derives [] a) :
    SettlesBelow n (Pure.pure a) derives :=
  fun stream _ => settles_pure hderives stream

/-- Whatever is left of the text, even nothing, there is a way to something derived. -/
theorem completable {n : Nat} {p : Parser α} {derives : List Token → α → Prop} (hn : 0 < n)
    (hp : SettlesBelow n p derives) : Completable derives [] := by
  -- At the end of the text there is no token to take, and none in front of a refused one.
  cases hp ⟨[], 0⟩ hn with
  | @takes tokens a rest hstream hderives htakes =>
      have htokens : [] = tokens ++ rest.tokens := congrArg TokenStream.tokens hstream
      obtain ⟨rfl, -⟩ := List.nil_eq_append_iff.mp htokens
      exact ⟨[], a, by simp, hderives⟩
  | @refuses before bad hfront hcompletable hrefuses =>
      have hlength := hfront.length_le
      simp only [TokenStream.toList, List.length_append, List.length_cons, List.length_nil]
        at hlength
      obtain rfl : before = [] := List.eq_nil_of_length_eq_zero (by omega)
      exact hcompletable

theorem bind {n : Nat} {p : Parser α} {f : α → Parser β} {derives : List Token → α → Prop}
    {whole : List Token → β → Prop} (hp : SettlesBelow n p derives)
    (hf : ∀ tokens a, derives tokens a →
      SettlesBelow n (f a) fun more b => whole (tokens ++ more) b) :
    SettlesBelow n (p >>= f) whole := by
  intro stream hlength
  apply (hp stream hlength).bind
  · intro tokens a rest hderives hstream
    apply hf tokens a hderives
    rw [hstream, TokenStream.length_prepend] at hlength
    omega
  · intro tokens a hderives
    exact (hf tokens a hderives).completable (Nat.zero_lt_of_lt hlength)

/-- If the first parser takes a token, the second one has fewer tokens to settle. -/
theorem bind_of_consumes {n : Nat} {p : Parser α} {f : α → Parser β}
    {derives : List Token → α → Prop} {whole : List Token → β → Prop}
    (hp : SettlesBelow (n + 1) p derives)
    (hpos : ∀ {tokens a}, derives tokens a → 0 < tokens.length)
    (hf : ∀ tokens a, derives tokens a →
      SettlesBelow n (f a) fun more b => whole (tokens ++ more) b)
    (hcompletable : ∀ tokens a, derives tokens a →
      Completable (fun more b => whole (tokens ++ more) b) []) :
    SettlesBelow (n + 1) (p >>= f) whole := by
  intro stream hlength
  apply (hp stream hlength).bind
  · intro tokens a rest hderives hstream
    apply hf tokens a hderives
    have := hpos hderives
    rw [hstream, TokenStream.length_prepend] at hlength
    omega
  · exact hcompletable

theorem bind_pure {n : Nat} {p : Parser α} {f : α → β} {derives : List Token → α → Prop}
    {whole : List Token → β → Prop} (hp : SettlesBelow n p derives)
    (hwhole : ∀ tokens a, derives tokens a → whole tokens (f a)) :
    SettlesBelow n (p >>= fun a => Pure.pure (f a)) whole := by
  apply hp.bind
  intro tokens a hderives
  apply pure
  rw [List.append_nil]
  exact hwhole tokens a hderives

theorem imp {n : Nat} {p : Parser α} {derives whole : List Token → α → Prop}
    (hp : SettlesBelow n p derives) (hwhole : ∀ tokens a, derives tokens a → whole tokens a) :
    SettlesBelow n p whole :=
  fun stream hlength => (hp stream hlength).imp hwhole

theorem advance_bind {n : Nat} {f : Token → Parser β} {derives : List Token → β → Prop}
    {stream : TokenStream} (hlength : stream.length < n + 1) (hkind : stream.current.kind ≠ .eof)
    (hf : SettlesBelow n (f stream.current) fun more b => derives (stream.current :: more) b) :
    (advance >>= f).Settles derives stream := by
  apply Settles.advance_bind hkind
  apply hf
  have := TokenStream.length_next_lt hkind
  omega

/-- A token of the expected kind comes first. -/
theorem expect_bind {n : Nat} (kind : Token.Kind) (hkind : kind ≠ .eof) {f : Token → Parser β}
    {whole : List Token → β → Prop}
    (hf : ∀ token, token.kind = kind →
      SettlesBelow n (f token) fun more b => whole (token :: more) b) :
    SettlesBelow n (expect kind >>= f) whole := by
  have hexpect : SettlesBelow n (expect kind)
      fun tokens token => token.kind = kind ∧ tokens = [token] := by
    intro stream _
    by_cases heq : stream.current.kind = kind
    · refine .takes (TokenStream.prepend_current (heq.trans_ne hkind)).symm ⟨heq, rfl⟩ ?_
      intro rest _
      exact yields_expect.mpr ⟨heq, rfl, rfl⟩
    · refine .refuses stream.current_front ?_ ⟨.token kind, ?_⟩
      · exact completable_sample hkind ⟨rfl, rfl⟩
      · intro other hfront
        have hcurrent : other.current = stream.current := TokenStream.current_of_front hfront
        refine ⟨[], other, rfl, ?_⟩
        rw [← hcurrent] at heq ⊢
        exact expect_of_ne heq
  apply hexpect.bind
  rintro _ token ⟨htoken, rfl⟩
  exact hf token htoken

/-- A token of the given kind is passed if it is there. -/
theorem sees_ite {n : Nat} (kind : Token.Kind) (hkind : kind ≠ .eof) {taken left : Parser β}
    {whole : List Token → β → Prop}
    (htaken : ∀ token, token.kind = kind →
      SettlesBelow n taken fun more b => whole (token :: more) b)
    (hleft : SettlesBelow (n + 1) left whole) :
    SettlesBelow (n + 1)
      (sees kind >>= fun seen => if seen = true then advance >>= fun _ => taken else left)
      whole := by
  intro stream hlength
  have hpeek : (sees kind >>= fun seen =>
      if seen = true then advance >>= fun _ => taken else left) =
        peek >>= fun token => if decide (token.kind = kind) = true then advance >>= fun _ => taken
          else left :=
    rfl
  rw [hpeek]
  apply Settles.peek_bind
  by_cases heq : stream.current.kind = kind
  · rw [decide_eq_true heq, if_pos rfl]
    exact advance_bind hlength (heq.trans_ne hkind) (htaken _ heq)
  · rw [decide_eq_false heq, if_neg Bool.false_ne_true]
    exact hleft stream hlength

/-! ## Propositions -/

theorem joinedBody {n : Nat} (connective : Connective) {operand rest : Parser Proposition}
    (hoperand : SettlesBelow (n + 1) operand (DerivesProposition connective.operands))
    (hrest : SettlesBelow n rest (DerivesProposition (.joined connective))) :
    SettlesBelow (n + 1) (joinedBody connective.kind connective.join operand rest)
      (DerivesProposition (.joined connective)) := by
  apply hoperand.bind
  intro left a ha
  apply sees_ite connective.kind connective.kind_ne_eof
  · intro op hop
    apply hrest.bind_pure
    intro right b hb
    exact .join ha hop hb
  · apply pure
    rw [List.append_nil]
    exact .single ha

theorem operandBody {n : Nat} {operand proposition : Parser Proposition}
    (hoperand : SettlesBelow n operand (DerivesProposition .operand))
    (hproposition : SettlesBelow n proposition (DerivesProposition (.joined .implies))) :
    SettlesBelow (n + 1) (operandBody operand proposition) (DerivesProposition .operand) := by
  intro stream hlength
  apply Settles.peek_bind
  cases hkind : stream.current.kind with
  | not =>
      apply advance_bind hlength (by simp [hkind])
      apply hoperand.bind_pure
      intro tokens p hp
      exact .negation hkind hp
  | ident => exact advance_bind hlength (by simp [hkind]) (pure (.atom hkind))
  | truth => exact advance_bind hlength (by simp [hkind]) (pure (.truth hkind))
  | falsity => exact advance_bind hlength (by simp [hkind]) (pure (.falsity hkind))
  | lparen =>
      apply advance_bind hlength (by simp [hkind])
      apply hproposition.bind
      intro tokens p hp
      apply expect_bind .rparen (by decide)
      intro rpar hrpar
      exact pure (.parens hkind hp hrpar)
  | _ =>
      apply settles_fail
      exact completable_sample (by decide) (.truth rfl)

end SettlesBelow

theorem settlesBelow_atLevel (n : Nat) (level : Level) :
    SettlesBelow n (atLevel level) (DerivesProposition level) := by
  induction n generalizing level with
  | zero => exact .zero _ _
  | succ n ih =>
      -- From the tightest level outwards, since a level calls the next tighter one in place.
      have hoperand : SettlesBelow (n + 1) (atLevel .operand) (DerivesProposition .operand) := by
        rw [atLevel_operand]
        exact (ih .operand).operandBody (ih (.joined .implies))
      have hjoined : ∀ connective : Connective,
          SettlesBelow (n + 1) (atLevel connective.operands)
            (DerivesProposition connective.operands) →
          SettlesBelow (n + 1) (atLevel (.joined connective))
            (DerivesProposition (.joined connective)) := by
        intro connective hoperands
        rw [atLevel_joined]
        exact hoperands.joinedBody connective (ih (.joined connective))
      have hand := hjoined .and hoperand
      have hor := hjoined .or hand
      cases level with
      | operand => exact hoperand
      | joined connective =>
          cases connective with
          | and => exact hand
          | or => exact hor
          | implies => exact hjoined .implies hor

namespace SettlesBelow

/-! ## Terms -/

theorem binder (n : Nat) : SettlesBelow n binder DerivesBinder := by
  apply expect_bind .ident (by decide)
  intro ident hident
  apply expect_bind .arrow (by decide)
  intro arrow harrow
  exact pure ⟨ident, arrow, hident, harrow, rfl, rfl⟩

theorem typedBinder (n : Nat) :
    SettlesBelow n typedBinder fun tokens pair => DerivesTypedBinder tokens pair.1 pair.2 := by
  apply expect_bind .lparen (by decide)
  intro lpar hlpar
  apply expect_bind .ident (by decide)
  intro ident hident
  apply expect_bind .colon (by decide)
  intro colon hcolon
  apply (settlesBelow_atLevel n (.joined .implies)).bind
  intro domain p hdomain
  apply expect_bind .rparen (by decide)
  intro rpar hrpar
  apply expect_bind .arrow (by decide)
  intro arrow harrow
  exact pure ⟨lpar, ident, colon, rpar, arrow, domain, hlpar, hident, hcolon, hdomain, hrpar,
    harrow, rfl, rfl⟩

theorem parenthesised {n : Nat} {inner : Parser α} {derives : List Token → α → Prop}
    (hinner : SettlesBelow n inner derives) :
    SettlesBelow n (parenthesised inner) fun tokens a =>
      ∃ (lpar rpar : Token) (ts : List Token), lpar.kind = .lparen ∧ derives ts a ∧
        rpar.kind = .rparen ∧ tokens = lpar :: (ts ++ [rpar]) := by
  apply expect_bind .lparen (by decide)
  intro lpar hlpar
  apply hinner.bind
  intro ts a hts
  apply expect_bind .rparen (by decide)
  intro rpar hrpar
  exact pure ⟨lpar, rpar, ts, hlpar, hts, hrpar, rfl⟩

theorem parenthesisedPair {n : Nat} {first : Parser α} {second : Parser β}
    {derives : List Token → α → Prop} {other : List Token → β → Prop}
    (hfirst : SettlesBelow n first derives) (hsecond : SettlesBelow n second other) :
    SettlesBelow n (parenthesisedPair first second) fun tokens pair =>
      ∃ (lpar comma rpar : Token) (ts us : List Token), lpar.kind = .lparen ∧
        derives ts pair.1 ∧ comma.kind = .comma ∧ other us pair.2 ∧ rpar.kind = .rparen ∧
        tokens = lpar :: (ts ++ comma :: (us ++ [rpar])) := by
  have hinner : SettlesBelow n
      (do let a ← first; let _ ← expect .comma; let b ← second; return (a, b))
      fun tokens pair => ∃ (comma : Token) (ts us : List Token), derives ts pair.1 ∧
        comma.kind = .comma ∧ other us pair.2 ∧ tokens = ts ++ comma :: us := by
    apply hfirst.bind
    intro ts a hts
    apply expect_bind .comma (by decide)
    intro comma hcomma
    apply hsecond.bind_pure
    intro us b hus
    exact ⟨comma, ts, us, hts, hcomma, hus, rfl⟩
  apply hinner.parenthesised.imp
  rintro _ pair ⟨lpar, rpar, _, hlpar, ⟨comma, ts, us, hts, hcomma, hus, rfl⟩, hrpar, rfl⟩
  exact ⟨lpar, comma, rpar, ts, us, hlpar, hts, hcomma, hus, hrpar, by simp⟩

theorem afterParenthesis {n : Nat} {term : Parser Term}
    (hterm : SettlesBelow n term (DerivesTerm .term)) {lpar : Token}
    (hlpar : lpar.kind = .lparen) :
    SettlesBelow n (afterParenthesis term) fun tokens t =>
      DerivesTerm .simple (lpar :: tokens) t := by
  cases n with
  | zero => exact zero _ _
  | succ n =>
      apply sees_ite .rparen (by decide)
      · intro rpar hrpar
        exact pure (.unit hlpar hrpar)
      · apply hterm.bind
        intro ls l hl
        apply sees_ite .comma (by decide)
        · intro comma hcomma
          apply (hterm.mono (Nat.le_succ n)).bind
          intro rs r hr
          apply expect_bind .rparen (by decide)
          intro rpar hrpar
          exact pure (.pair hlpar hl hcomma hr hrpar)
        · apply expect_bind .rparen (by decide)
          intro rpar hrpar
          exact pure (.parens hlpar hl hrpar)

theorem simpleOf {n : Nat} {term : Parser Term} (hterm : SettlesBelow n term (DerivesTerm .term)) :
    SettlesBelow (n + 1) (simpleOf term) (DerivesTerm .simple) := by
  intro stream hlength
  have hproposition := settlesBelow_atLevel n (.joined .implies)
  -- The first token is passed in any case, also if it is the one to be refused.
  by_cases hstarts : stream.current.kind.startsArgument = true
  · apply advance_bind hlength (by intro heof; rw [heof] at hstarts; contradiction)
    cases hkind : stream.current.kind with
    | ident => exact pure (.var hkind)
    | lparen => exact hterm.afterParenthesis hkind
    | fst =>
        apply hterm.parenthesised.bind_pure
        rintro _ t ⟨lpar, rpar, ts, hlpar, ht, hrpar, rfl⟩
        exact .fst hkind hlpar ht hrpar
    | snd =>
        apply hterm.parenthesised.bind_pure
        rintro _ t ⟨lpar, rpar, ts, hlpar, ht, hrpar, rfl⟩
        exact .snd hkind hlpar ht hrpar
    | left =>
        apply (hterm.parenthesisedPair hproposition).bind_pure
        rintro _ pair ⟨lpar, comma, rpar, ts, ps, hlpar, ht, hcomma, hp, hrpar, rfl⟩
        exact .inl hkind hlpar ht hcomma hp hrpar
    | right =>
        apply (hproposition.parenthesisedPair hterm).bind_pure
        rintro _ pair ⟨lpar, comma, rpar, ps, ts, hlpar, hp, hcomma, ht, hrpar, rfl⟩
        exact .inr hkind hlpar hp hcomma ht hrpar
    | absurd =>
        apply (hterm.parenthesisedPair hproposition).bind_pure
        rintro _ pair ⟨lpar, comma, rpar, ts, ps, hlpar, ht, hcomma, hp, hrpar, rfl⟩
        exact .absurd hkind hlpar ht hcomma hp hrpar
    | _ =>
        rw [hkind] at hstarts
        contradiction
  · apply settles_advance_throw .term
    · exact completable_sample (by decide) (.var rfl)
    · cases hkind : stream.current.kind with
      | ident | lparen | fst | snd | left | right | absurd =>
          exact absurd (by rw [hkind]; rfl) hstarts
      | _ => rfl

theorem argumentsBody {n : Nat} {simple : Parser Term} {arguments : Term → Parser Term}
    (hsimple : SettlesBelow (n + 1) simple (DerivesTerm .simple))
    (harguments : ∀ fs f, DerivesTerm .application fs f →
      SettlesBelow n (arguments f) fun more t => DerivesTerm .application (fs ++ more) t)
    {fs : List Token} {f : Term} (hf : DerivesTerm .application fs f) :
    SettlesBelow (n + 1) (argumentsBody simple arguments f) fun more t =>
      DerivesTerm .application (fs ++ more) t := by
  intro stream hlength
  apply Settles.peek_bind
  split
  next =>
    apply hsimple.bind_of_consumes DerivesTerm.length_pos _ _ stream hlength
    · intro xs x hx
      have hmore := harguments (fs ++ xs) (.app f x) (.argument hf hx)
      simpa only [List.append_assoc] using hmore
    · intro xs x hx
      refine ⟨[], .app f x, by simp, ?_⟩
      simpa using DerivesTerm.argument hf hx
  next =>
    apply settles_pure
    rw [List.append_nil]
    exact hf

theorem termBody {n : Nat} {term application : Parser Term}
    (hterm : SettlesBelow n term (DerivesTerm .term))
    (happlication : SettlesBelow (n + 1) application (DerivesTerm .application)) :
    SettlesBelow (n + 1) (termBody proposition term application) (DerivesTerm .term) := by
  intro stream hlength
  apply Settles.peek_bind
  cases hkind : stream.current.kind with
  | lambda =>
      apply advance_bind hlength (by simp [hkind])
      apply (typedBinder n).bind
      intro bs pair hbs
      apply hterm.bind_pure
      intro tokens body hbody
      exact .lam hkind hbs hbody
  | case =>
      apply advance_bind hlength (by simp [hkind])
      apply hterm.bind
      intro ts t ht
      apply expect_bind .of (by decide)
      intro ofWord hof
      apply (binder n).bind
      intro xs x hx
      apply hterm.bind
      intro us u hu
      apply expect_bind .pipe (by decide)
      intro pipe hpipe
      apply (binder n).bind
      intro ys y hy
      apply hterm.bind_pure
      intro vs v hv
      exact .cases hkind ht hof hx hu hpipe hy hv
  | _ =>
      apply (happlication stream hlength).imp
      intro tokens t ht
      exact .application ht

end SettlesBelow

theorem settlesBelow_term (n : Nat) : SettlesBelow n term (DerivesTerm .term) ∧
    ∀ fs f, DerivesTerm .application fs f →
      SettlesBelow n (arguments f) fun more t => DerivesTerm .application (fs ++ more) t := by
  induction n with
  | zero => exact ⟨.zero _ _, fun _ _ _ => .zero _ _⟩
  | succ n ih =>
      obtain ⟨hterm, harguments⟩ := ih
      have hsimple : SettlesBelow (n + 1) simple (DerivesTerm .simple) := by
        rw [simple_eq]
        exact hterm.simpleOf
      constructor
      · rw [term_eq]
        apply hterm.termBody
        apply hsimple.bind_of_consumes DerivesTerm.length_pos
        · intro fs f hf
          exact harguments fs f (.head hf)
        · intro fs f hf
          refine ⟨[], f, by simp, ?_⟩
          simpa using DerivesTerm.head hf
      · intro fs f hf
        rw [arguments_eq]
        exact hsimple.argumentsBody harguments hf

/-! ## Every rule settles every stream -/

theorem settles_atLevel (level : Level) (stream : TokenStream) :
    (atLevel level).Settles (DerivesProposition level) stream :=
  settlesBelow_atLevel _ level stream (Nat.lt_succ_self _)

theorem settles_term (stream : TokenStream) : term.Settles (DerivesTerm .term) stream :=
  (settlesBelow_term _).1 stream (Nat.lt_succ_self _)

theorem settles_simple (stream : TokenStream) : simple.Settles (DerivesTerm .simple) stream := by
  rw [simple_eq]
  exact (settlesBelow_term _).1.simpleOf stream (Nat.lt_succ_self _)

end Parser

end Sequitur
