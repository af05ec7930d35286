import Sequitur.Proofs.Grammar.Term

/-! # Rules without bounds

The parsers put themselves into the bodies of the rules, with bounds on their
recursion. Here the bounds are taken away: the rules call each other as they
stand. Each rule calls itself, directly or through others, on shorter streams
only. So what the rules do on streams with some number of tokens is settled by
what they do on shorter ones, no bound that is greater than the number of
tokens is ever reached, and the calls of the rules nest no deeper than four
times that number.
-/

namespace Sequitur

theorem TokenStream.length_next_lt {stream : TokenStream} (hkind : stream.current.kind ≠ .eof) :
    stream.next.length < stream.length := by
  have hlength := congrArg TokenStream.length (TokenStream.prepend_current hkind)
  rw [TokenStream.length_prepend, List.length_singleton] at hlength
  omega

theorem TokenStream.length_next_le (stream : TokenStream) : stream.next.length ≤ stream.length := by
  simp [TokenStream.next, TokenStream.length]

namespace Parser

open Grammar

variable {α β : Type}

/-! ## What a sequence of parsers does -/

theorem bind_of_ok {p : Parser α} {f : α → Parser β} {stream rest : TokenStream} {a : α}
    (hp : p stream = (.ok a, rest)) : (p >>= f) stream = f a rest := by
  change ExceptT.bindCont f (p stream).1 (p stream).2 = _
  rw [hp]
  rfl

theorem bind_of_error {p : Parser α} {f : α → Parser β} {stream rest : TokenStream}
    {error : SyntaxError} (hp : p stream = (.error error, rest)) :
    (p >>= f) stream = (.error error, rest) := by
  change ExceptT.bindCont f (p stream).1 (p stream).2 = _
  rw [hp]
  rfl

/-- Two sequences do the same on a stream if their first parts do, and their second parts on what
the first parts leave. -/
theorem bind_congr_apply {p q : Parser α} {f g : α → Parser β} {stream : TokenStream}
    (hpq : p stream = q stream) (hfg : ∀ a rest, q stream = (.ok a, rest) → f a rest = g a rest) :
    (p >>= f) stream = (q >>= g) stream := by
  rcases hq : q stream with ⟨error | a, rest⟩
  · rw [bind_of_error hq, bind_of_error (hpq.trans hq)]
  · rw [bind_of_ok hq, bind_of_ok (hpq.trans hq), hfg a rest hq]

theorem peek_bind_apply (f : Token → Parser β) (stream : TokenStream) :
    (peek >>= f) stream = f stream.current stream :=
  rfl

theorem advance_bind_apply (f : Token → Parser β) (stream : TokenStream) :
    (advance >>= f) stream = f stream.current stream.next :=
  rfl

theorem sees_bind_apply (kind : Token.Kind) (f : Bool → Parser β) (stream : TokenStream) :
    (sees kind >>= f) stream = f (decide (stream.current.kind = kind)) stream :=
  rfl

/-- What the parser leaves behind when it succeeds has no more tokens than it was given. -/
def Shrinks (p : Parser α) : Prop :=
  ∀ ⦃stream : TokenStream⦄ ⦃a : α⦄ ⦃rest : TokenStream⦄,
    p.Yields stream a rest → rest.length ≤ stream.length

/-- A parser that takes at least one token when it succeeds. -/
def Consumes (p : Parser α) : Prop :=
  ∀ ⦃stream : TokenStream⦄ ⦃a : α⦄ ⦃rest : TokenStream⦄,
    p.Yields stream a rest → rest.length < stream.length

theorem Sound.shrinks {p : Parser α} {derives : List Token → α → Prop} (hsound : p.Sound derives) :
    p.Shrinks := by
  intro stream a rest hyields
  obtain ⟨tokens, rfl, -⟩ := hsound hyields
  rw [TokenStream.length_prepend]
  omega

theorem Sound.consumes {p : Parser α} {derives : List Token → α → Prop} (hsound : p.Sound derives)
    (hpos : ∀ {tokens a}, derives tokens a → 0 < tokens.length) : p.Consumes := by
  intro stream a rest hyields
  obtain ⟨tokens, rfl, hderives⟩ := hsound hyields
  have := hpos hderives
  rw [TokenStream.length_prepend]
  omega

theorem shrinks_expect (kind : Token.Kind) : (expect kind).Shrinks := by
  intro stream token rest hyields
  obtain ⟨-, -, rfl⟩ := yields_expect.mp hyields
  exact stream.length_next_le

theorem shrinks_binder : binder.Shrinks := by
  have hsound : binder.Sound DerivesBinder := fun _ _ _ => binder_yields.mp
  exact hsound.shrinks

theorem shrinks_typedBinder : typedBinder.Shrinks := by
  have hsound : typedBinder.Sound fun tokens pair => DerivesTypedBinder tokens pair.1 pair.2 :=
    fun _ _ _ => typedBinder_yields.mp
  exact hsound.shrinks

/-! ## Parsers that do the same on short streams -/

/-- Two parsers that do the same on every stream with fewer tokens than the bound. -/
def SameBelow (bound : Nat) (p q : Parser α) : Prop :=
  ∀ stream : TokenStream, stream.length < bound → p stream = q stream

namespace SameBelow

theorem refl (n : Nat) (p : Parser α) : SameBelow n p p :=
  fun _ _ => rfl

theorem zero (p q : Parser α) : SameBelow 0 p q :=
  fun _ hlength => absurd hlength (Nat.not_lt_zero _)

theorem symm {n : Nat} {p q : Parser α} (hpq : SameBelow n p q) : SameBelow n q p :=
  fun stream hlength => (hpq stream hlength).symm

theorem trans {n : Nat} {p q r : Parser α} (hpq : SameBelow n p q) (hqr : SameBelow n q r) :
    SameBelow n p r :=
  fun stream hlength => (hpq stream hlength).trans (hqr stream hlength)

theorem mono {m n : Nat} {p q : Parser α} (hpq : SameBelow n p q) (hmn : m ≤ n) :
    SameBelow m p q :=
  fun stream hlength => hpq stream (Nat.lt_of_lt_of_le hlength hmn)

theorem of_succ {m : Nat} {p q : Parser α} (hpq : ∀ n, m = n + 1 → SameBelow (n + 1) p q) :
    SameBelow m p q := by
  cases m with
  | zero => exact zero p q
  | succ n => exact hpq n rfl

theorem eq_of_forall {p q : Parser α} (hpq : ∀ n, SameBelow (n + 1) p q) : p = q := by
  funext stream
  exact hpq stream.length stream (Nat.lt_succ_self _)

/-- A sequence does the same if its parts do, since the second part has no more tokens to read than
the first one. -/
theorem bind {n : Nat} {p q : Parser α} {f g : α → Parser β} (hpq : SameBelow n p q)
    (hshrinks : q.Shrinks) (hfg : ∀ a, SameBelow n (f a) (g a)) :
    SameBelow n (p >>= f) (q >>= g) := by
  intro stream hlength
  apply bind_congr_apply (hpq stream hlength)
  intro a rest hq
  exact hfg a rest (Nat.lt_of_le_of_lt (hshrinks hq) hlength)

theorem bind_left {n : Nat} {p q : Parser α} (hpq : SameBelow n p q) (f : α → Parser β) :
    SameBelow n (p >>= f) (q >>= f) := by
  intro stream hlength
  exact bind_congr_apply (hpq stream hlength) fun _ _ _ => rfl

theorem bind_right {n : Nat} {p : Parser α} (hshrinks : p.Shrinks) {f g : α → Parser β}
    (hfg : ∀ a, SameBelow n (f a) (g a)) : SameBelow n (p >>= f) (p >>= g) :=
  (refl n p).bind hshrinks hfg

/-- If the first part takes a token, the second part has fewer tokens to read. -/
theorem bind_of_consumes {n : Nat} {p q : Parser α} {f g : α → Parser β}
    (hpq : SameBelow (n + 1) p q) (hconsumes : q.Consumes) (hfg : ∀ a, SameBelow n (f a) (g a)) :
    SameBelow (n + 1) (p >>= f) (q >>= g) := by
  intro stream hlength
  apply bind_congr_apply (hpq stream hlength)
  intro a rest hq
  have := hconsumes hq
  exact hfg a rest (by omega)

/-- Behind a token that is passed there are fewer tokens. -/
theorem advance_bind {n : Nat} {f g : Token → Parser β}
    (hfg : ∀ token, SameBelow n (f token) (g token)) {stream : TokenStream}
    (hlength : stream.length < n + 1) (hkind : stream.current.kind ≠ .eof) :
    (advance >>= f) stream = (advance >>= g) stream := by
  rw [advance_bind_apply, advance_bind_apply]
  apply hfg
  have := TokenStream.length_next_lt hkind
  omega

theorem sees_ite {n : Nat} (kind : Token.Kind) (hkind : kind ≠ .eof)
    {taken other left right : Parser β} (htaken : SameBelow n taken other)
    (hleft : SameBelow (n + 1) left right) :
    SameBelow (n + 1)
      (sees kind >>= fun seen => if seen = true then advance >>= fun _ => taken else left)
      (sees kind >>= fun seen => if seen = true then advance >>= fun _ => other else right) := by
  intro stream hlength
  rw [sees_bind_apply, sees_bind_apply]
  by_cases heq : stream.current.kind = kind
  · rw [decide_eq_true heq, if_pos rfl, if_pos rfl]
    exact advance_bind (fun _ => htaken) hlength (by rwa [heq])
  · rw [decide_eq_false heq, if_neg Bool.false_ne_true, if_neg Bool.false_ne_true]
    exact hleft stream hlength

end SameBelow

/-! ## One step of the bounded parsers -/

theorem operandWithin_succ (fuel : Nat) :
    operandWithin (fuel + 1) =
      operandBody (operandWithin fuel) ((Level.joined .implies).parser fuel fuel) :=
  rfl

theorem termWithin_succ (fuel : Nat) :
    termWithin (fuel + 1) = termBody proposition (termWithin fuel) (applicationWithin fuel fuel) :=
  rfl

namespace SameBelow

/-! ## The bodies look at shorter streams -/

theorem joinedBody {n : Nat} (connective : Connective)
    {operand operand' rest rest' : Parser Proposition}
    (hoperand : SameBelow (n + 1) operand operand') (hshrinks : operand'.Shrinks)
    (hrest : SameBelow n rest rest') :
    SameBelow (n + 1) (joinedBody connective.kind connective.join operand rest)
      (joinedBody connective.kind connective.join operand' rest') := by
  apply hoperand.bind hshrinks
  intro left
  exact sees_ite connective.kind connective.kind_ne_eof (hrest.bind_left _) (refl _ _)

theorem operandBody {n : Nat} {operand operand' proposition proposition' : Parser Proposition}
    (hoperand : SameBelow n operand operand')
    (hproposition : SameBelow n proposition proposition') :
    SameBelow (n + 1) (operandBody operand proposition) (operandBody operand' proposition') := by
  intro stream hlength
  unfold Parser.operandBody
  rw [peek_bind_apply, peek_bind_apply]
  cases hkind : stream.current.kind with
  | not =>
      apply advance_bind _ hlength (by simp [hkind])
      exact fun _ => hoperand.bind_left _
  | lparen =>
      apply advance_bind _ hlength (by simp [hkind])
      exact fun _ => hproposition.bind_left _
  | _ => rfl

theorem parenthesised {n : Nat} {inner inner' : Parser α} (hinner : SameBelow n inner inner') :
    SameBelow n (parenthesised inner) (parenthesised inner') := by
  apply bind_right (shrinks_expect _)
  exact fun _ => hinner.bind_left _

theorem parenthesisedPair {n : Nat} {first first' : Parser α} {second second' : Parser β}
    (hfirst : SameBelow n first first') (hshrinks : first'.Shrinks)
    (hsecond : SameBelow n second second') :
    SameBelow n (parenthesisedPair first second) (parenthesisedPair first' second') := by
  apply parenthesised
  apply hfirst.bind hshrinks
  intro a
  apply bind_right (shrinks_expect _)
  exact fun _ => hsecond.bind_left _

theorem afterParenthesis {n : Nat} {term term' : Parser Term} (hterm : SameBelow n term term')
    (hshrinks : term'.Shrinks) :
    SameBelow n (afterParenthesis term) (afterParenthesis term') := by
  cases n with
  | zero => exact zero _ _
  | succ n =>
      apply sees_ite .rparen (by decide) (refl _ _)
      apply hterm.bind hshrinks
      intro left
      exact sees_ite .comma (by decide) ((hterm.mono (Nat.le_succ n)).bind_left _) (refl _ _)

theorem typedBinderBody {n : Nat} {proposition proposition' : Parser Proposition}
    (hproposition : SameBelow n proposition proposition') :
    SameBelow n (typedBinderBody proposition) (typedBinderBody proposition') := by
  apply bind_right (shrinks_expect _)
  intro lpar
  apply bind_right (shrinks_expect _)
  intro name
  apply bind_right (shrinks_expect _)
  exact fun _ => hproposition.bind_left _

theorem simpleBody {n : Nat} {proposition proposition' : Parser Proposition}
    {term term' : Parser Term} (hproposition : SameBelow n proposition proposition')
    (hshrinksProposition : proposition'.Shrinks) (hterm : SameBelow n term term')
    (hshrinks : term'.Shrinks) :
    SameBelow (n + 1) (simpleBody proposition term) (simpleBody proposition' term') := by
  intro stream hlength
  by_cases heof : stream.current.kind = .eof
  · unfold Parser.simpleBody
    rw [advance_bind_apply, advance_bind_apply, heof]
  · refine advance_bind ?_ hlength heof
    intro token
    have hpair := hterm.parenthesisedPair hshrinks hproposition
    cases token.kind with
    | lparen => exact hterm.afterParenthesis hshrinks
    | fst => exact hterm.parenthesised.bind_left _
    | snd => exact hterm.parenthesised.bind_left _
    | left => exact hpair.bind_left _
    | right => exact (hproposition.parenthesisedPair hshrinksProposition hterm).bind_left _
    | absurd => exact hpair.bind_left _
    | _ => exact refl _ _

theorem simpleOf {n : Nat} {term term' : Parser Term} (hterm : SameBelow n term term')
    (hshrinks : term'.Shrinks) : SameBelow (n + 1) (simpleOf term) (simpleOf term') := by
  unfold Parser.simpleOf
  exact (refl n proposition).simpleBody proposition_sound.shrinks hterm hshrinks

theorem termBody {n : Nat} {proposition proposition' : Parser Proposition}
    {term term' application application' : Parser Term}
    (hproposition : SameBelow n proposition proposition')
    (hshrinksBinder : (Parser.typedBinderBody proposition').Shrinks)
    (hterm : SameBelow n term term') (hshrinks : term'.Shrinks)
    (happlication : SameBelow (n + 1) application application') :
    SameBelow (n + 1) (termBody proposition term application)
      (termBody proposition' term' application') := by
  intro stream hlength
  unfold Parser.termBody
  rw [peek_bind_apply, peek_bind_apply]
  cases hkind : stream.current.kind with
  | lambda =>
      apply advance_bind _ hlength (by simp [hkind])
      intro word
      apply hproposition.typedBinderBody.bind hshrinksBinder
      exact fun _ => hterm.bind_left _
  | case =>
      apply advance_bind _ hlength (by simp [hkind])
      intro word
      apply hterm.bind hshrinks
      intro scrutinee
      apply bind_right (shrinks_expect _)
      intro ofWord
      apply bind_right shrinks_binder
      intro x
      apply hterm.bind hshrinks
      intro u
      apply bind_right (shrinks_expect _)
      intro pipe
      apply bind_right shrinks_binder
      exact fun _ => hterm.bind_left _
  | _ => exact happlication stream hlength

theorem argumentsBody {n : Nat} {simple simple' : Parser Term}
    {arguments arguments' : Term → Parser Term} (hsimple : SameBelow (n + 1) simple simple')
    (hconsumes : simple'.Consumes) (harguments : ∀ f, SameBelow n (arguments f) (arguments' f))
    (function : Term) :
    SameBelow (n + 1) (argumentsBody simple arguments function)
      (argumentsBody simple' arguments' function) := by
  intro stream hlength
  unfold Parser.argumentsBody
  rw [peek_bind_apply, peek_bind_apply]
  split
  next => exact hsimple.bind_of_consumes hconsumes (fun x => harguments _) stream hlength
  next => rfl

end SameBelow

/-! ## Bounds are not reached -/

theorem sameBelow_chainRight {n : Nat} (connective : Connective)
    {operand operand' : Parser Proposition} (hoperand : SameBelow n operand operand')
    (hshrinks : operand'.Shrinks) {count count' : Nat} (hcount : n ≤ count) (hcount' : n ≤ count') :
    SameBelow n (chainRight connective.kind connective.join operand count)
      (chainRight connective.kind connective.join operand' count') := by
  induction n generalizing count count' with
  | zero => exact .zero _ _
  | succ n ih =>
      obtain ⟨count, rfl⟩ : ∃ k, count = k + 1 := ⟨count - 1, by omega⟩
      obtain ⟨count', rfl⟩ : ∃ k, count' = k + 1 := ⟨count' - 1, by omega⟩
      rw [chainRight, chainRight]
      apply hoperand.joinedBody connective hshrinks
      exact ih (hoperand.mono (Nat.le_succ n)) (by omega) (by omega)

theorem sameBelow_level_of_operand {n fuel fuel' : Nat}
    (hoperand : SameBelow n (operandWithin fuel) (operandWithin fuel')) (hfuel : n ≤ fuel)
    (hfuel' : n ≤ fuel') (level : Level) {count count' : Nat} (hcount : n ≤ count)
    (hcount' : n ≤ count') :
    SameBelow n (level.parser fuel count) (level.parser fuel' count') := by
  have hshrinks : ∀ level : Level, (level.parser fuel' fuel').Shrinks :=
    fun level => (Level.parser_sound (operandWithin_sound fuel') level fuel').shrinks
  have hand : ∀ {count count'}, n ≤ count → n ≤ count' →
      SameBelow n ((Level.joined .and).parser fuel count)
        ((Level.joined .and).parser fuel' count') :=
    sameBelow_chainRight .and hoperand (hshrinks .operand)
  have hor : ∀ {count count'}, n ≤ count → n ≤ count' →
      SameBelow n ((Level.joined .or).parser fuel count)
        ((Level.joined .or).parser fuel' count') :=
    sameBelow_chainRight .or (hand hfuel hfuel') (hshrinks (.joined .and))
  cases level with
  | operand => exact hoperand
  | joined connective =>
      cases connective with
      | and => exact hand hcount hcount'
      | or => exact hor hcount hcount'
      | implies =>
          exact sameBelow_chainRight .implies (hor hfuel hfuel') (hshrinks (.joined .or)) hcount
            hcount'

theorem sameBelow_operandWithin {n fuel fuel' : Nat} (hfuel : n ≤ fuel) (hfuel' : n ≤ fuel') :
    SameBelow n (operandWithin fuel) (operandWithin fuel') := by
  induction n generalizing fuel fuel' with
  | zero => exact .zero _ _
  | succ n ih =>
      obtain ⟨fuel, rfl⟩ : ∃ k, fuel = k + 1 := ⟨fuel - 1, by omega⟩
      obtain ⟨fuel', rfl⟩ : ∃ k, fuel' = k + 1 := ⟨fuel' - 1, by omega⟩
      have hle : n ≤ fuel := Nat.le_of_succ_le_succ hfuel
      have hle' : n ≤ fuel' := Nat.le_of_succ_le_succ hfuel'
      rw [operandWithin_succ, operandWithin_succ]
      apply (ih hle hle').operandBody
      exact sameBelow_level_of_operand (ih hle hle') hle hle' _ hle hle'

theorem sameBelow_level {n fuel fuel' count count' : Nat} (level : Level) (hfuel : n ≤ fuel)
    (hfuel' : n ≤ fuel') (hcount : n ≤ count) (hcount' : n ≤ count') :
    SameBelow n (level.parser fuel count) (level.parser fuel' count') :=
  sameBelow_level_of_operand (sameBelow_operandWithin hfuel hfuel') hfuel hfuel' level hcount
    hcount'

theorem consumes_simpleOf (fuel : Nat) : (simpleOf (termWithin fuel)).Consumes :=
  (simpleOf_sound (termWithin_sound fuel)).consumes DerivesTerm.length_pos

theorem sameBelow_applyArguments {n : Nat} {simple simple' : Parser Term}
    (hsimple : SameBelow n simple simple') (hconsumes : simple'.Consumes) {count count' : Nat}
    (hcount : n ≤ count) (hcount' : n ≤ count') (function : Term) :
    SameBelow n (applyArguments simple count function)
      (applyArguments simple' count' function) := by
  induction n generalizing count count' function with
  | zero => exact .zero _ _
  | succ n ih =>
      obtain ⟨count, rfl⟩ : ∃ k, count = k + 1 := ⟨count - 1, by omega⟩
      obtain ⟨count', rfl⟩ : ∃ k, count' = k + 1 := ⟨count' - 1, by omega⟩
      rw [applyArguments, applyArguments]
      apply hsimple.argumentsBody hconsumes
      intro f
      exact ih (hsimple.mono (Nat.le_succ n)) (by omega) (by omega) f

theorem sameBelow_termWithin {n fuel fuel' : Nat} (hfuel : n ≤ fuel) (hfuel' : n ≤ fuel') :
    SameBelow n (termWithin fuel) (termWithin fuel') := by
  induction n generalizing fuel fuel' with
  | zero => exact .zero _ _
  | succ n ih =>
      obtain ⟨fuel, rfl⟩ : ∃ k, fuel = k + 1 := ⟨fuel - 1, by omega⟩
      obtain ⟨fuel', rfl⟩ : ∃ k, fuel' = k + 1 := ⟨fuel' - 1, by omega⟩
      have hle : n ≤ fuel := Nat.le_of_succ_le_succ hfuel
      have hle' : n ≤ fuel' := Nat.le_of_succ_le_succ hfuel'
      have hsimple : SameBelow (n + 1) (simpleOf (termWithin fuel)) (simpleOf (termWithin fuel')) :=
        (ih hle hle').simpleOf (termWithin_sound fuel').shrinks
      rw [termWithin_succ, termWithin_succ]
      apply (SameBelow.refl n proposition).termBody shrinks_typedBinder (ih hle hle')
        (termWithin_sound fuel').shrinks
      apply hsimple.bind_of_consumes (consumes_simpleOf fuel')
      exact sameBelow_applyArguments (hsimple.mono (Nat.le_succ n)) (consumes_simpleOf fuel') hle
        hle'

theorem sameBelow_bounded {n : Nat} {p : Nat → Parser α} {q : Parser α}
    (hpq : ∀ k ≤ n, SameBelow k (p k) q) : SameBelow n (bounded p) q := by
  intro stream hlength
  exact hpq (stream.length + 1) hlength stream (Nat.lt_succ_self _)

/-! ## What the rules do -/

/-- The parser of a level of propositions. -/
def atLevel (level : Level) : Parser Proposition :=
  bounded fun n => level.parser n n

/-- The arguments that follow a function. -/
def arguments (function : Term) : Parser Term :=
  bounded fun n => applyArguments simple n function

theorem atLevel_sound (level : Level) : (atLevel level).Sound (DerivesProposition level) := by
  intro stream p rest hyields
  exact Level.parser_sound (operandWithin_sound _) level _ (yields_bounded.mp hyields)

theorem simple_sound : simple.Sound (DerivesTerm .simple) := by
  intro stream t rest hyields
  exact simpleOf_sound (termWithin_sound _) (yields_bounded.mp hyields)

theorem sameBelow_atLevel {n fuel count : Nat} (level : Level) (hfuel : n ≤ fuel)
    (hcount : n ≤ count) : SameBelow n (atLevel level) (level.parser fuel count) := by
  apply sameBelow_bounded
  intro k hk
  exact sameBelow_level level le_rfl (hk.trans hfuel) le_rfl (hk.trans hcount)

theorem sameBelow_term {n fuel : Nat} (hfuel : n ≤ fuel) : SameBelow n term (termWithin fuel) := by
  apply sameBelow_bounded
  intro k hk
  exact sameBelow_termWithin le_rfl (hk.trans hfuel)

theorem sameBelow_simple {n fuel : Nat} (hfuel : n ≤ fuel) :
    SameBelow (n + 1) simple (simpleOf (termWithin fuel)) := by
  apply sameBelow_bounded
  intro k hk
  cases k with
  | zero => exact .zero _ _
  | succ k =>
      have hterm : SameBelow k (termWithin (k + 1)) (termWithin fuel) :=
        sameBelow_termWithin (Nat.le_succ k) ((Nat.le_of_succ_le_succ hk).trans hfuel)
      exact hterm.simpleOf (termWithin_sound fuel).shrinks

theorem sameBelow_arguments {n fuel count : Nat} (hfuel : n ≤ fuel) (hcount : n ≤ count)
    (function : Term) :
    SameBelow n (arguments function)
      (applyArguments (simpleOf (termWithin fuel)) count function) := by
  apply sameBelow_bounded
  intro k hk
  have hsimple : SameBelow k simple (simpleOf (termWithin fuel)) :=
    (sameBelow_simple (hk.trans hfuel)).mono (Nat.le_succ k)
  exact sameBelow_applyArguments hsimple (consumes_simpleOf fuel) le_rfl (hk.trans hcount) function

/-- An operand, and if its connective follows, another proposition of the same level. -/
theorem atLevel_joined (connective : Connective) :
    atLevel (.joined connective) =
      joinedBody connective.kind connective.join (atLevel connective.operands)
        (atLevel (.joined connective)) := by
  apply SameBelow.eq_of_forall
  intro n
  have hlevel := sameBelow_atLevel (.joined connective) (le_refl (n + 1)) (le_refl (n + 1))
  rw [Level.parser_joined, chainRight] at hlevel
  refine hlevel.trans ?_
  have hoperand : SameBelow (n + 1) (connective.operands.parser (n + 1) (n + 1))
      (atLevel connective.operands) :=
    (sameBelow_atLevel _ le_rfl le_rfl).symm
  have hrest : SameBelow n ((Level.joined connective).parser (n + 1) n)
      (atLevel (.joined connective)) :=
    (sameBelow_atLevel _ (Nat.le_succ n) le_rfl).symm
  rw [Level.parser_joined] at hrest
  exact hoperand.joinedBody connective (atLevel_sound _).shrinks hrest

theorem atLevel_operand :
    atLevel .operand = operandBody (atLevel .operand) (atLevel (.joined .implies)) := by
  apply SameBelow.eq_of_forall
  intro n
  have hlevel := sameBelow_atLevel .operand (le_refl (n + 1)) (le_refl (n + 1))
  rw [Level.parser, operandWithin_succ] at hlevel
  refine hlevel.trans (SameBelow.operandBody ?_ ?_)
  · exact (sameBelow_atLevel .operand le_rfl le_rfl).symm
  · exact (sameBelow_atLevel _ le_rfl le_rfl).symm

theorem simple_eq : simple = simpleOf term := by
  apply SameBelow.eq_of_forall
  intro n
  refine (sameBelow_simple (le_refl n)).trans ?_
  exact (sameBelow_term le_rfl).symm.simpleOf term_sound.shrinks

theorem consumes_simple : simple.Consumes :=
  simple_sound.consumes DerivesTerm.length_pos

theorem arguments_eq (function : Term) :
    arguments function = argumentsBody simple arguments function := by
  apply SameBelow.eq_of_forall
  intro n
  have harguments := sameBelow_arguments (le_refl (n + 1)) (le_refl (n + 1)) function
  rw [applyArguments] at harguments
  refine harguments.trans (SameBelow.argumentsBody ?_ consumes_simple ?_ function)
  · exact ((sameBelow_simple (le_refl (n + 1))).mono (Nat.le_succ _)).symm
  · exact fun f => (sameBelow_arguments (Nat.le_succ n) le_rfl f).symm

theorem term_eq : term = termBody proposition term (simple >>= arguments) := by
  apply SameBelow.eq_of_forall
  intro n
  have hterm := sameBelow_term (le_refl (n + 1))
  rw [termWithin_succ] at hterm
  refine hterm.trans
    ((SameBelow.refl n proposition).termBody shrinks_typedBinder ?_ term_sound.shrinks ?_)
  · exact (sameBelow_term le_rfl).symm
  · refine SameBelow.bind_of_consumes ?_ consumes_simple ?_
    · exact (sameBelow_simple le_rfl).symm
    · exact fun f => (sameBelow_arguments le_rfl le_rfl f).symm

/-! ## How deep the rules nest -/

/-- A parser for each rule of the grammar, and for the arguments that follow a function. -/
@[ext]
structure Rules where
  proposition : Parser Proposition
  disjunction : Parser Proposition
  conjunction : Parser Proposition
  operand : Parser Proposition
  term : Parser Term
  simple : Parser Term
  arguments : Term → Parser Term

namespace Rules

/-- What the rules do if they call the given parsers for each other and for themselves. -/
def unfold (rules : Rules) : Rules where
  proposition := joinedBody .implies .implies rules.disjunction rules.proposition
  disjunction := joinedBody .or .or rules.conjunction rules.disjunction
  conjunction := joinedBody .and .and rules.operand rules.conjunction
  operand := operandBody rules.operand rules.proposition
  term := termBody rules.proposition rules.term (rules.simple >>= rules.arguments)
  simple := simpleBody rules.proposition rules.term
  arguments := argumentsBody rules.simple rules.arguments

/-- The parsers with bounds. -/
def bounded : Rules where
  proposition := Parser.proposition
  disjunction := Parser.disjunction
  conjunction := Parser.conjunction
  operand := Parser.operand
  term := Parser.term
  simple := Parser.simple
  arguments := Parser.arguments

theorem unfold_bounded : bounded.unfold = bounded := by
  ext1
  · exact (atLevel_joined .implies).symm
  · exact (atLevel_joined .or).symm
  · exact (atLevel_joined .and).symm
  · exact atLevel_operand.symm
  · exact term_eq.symm
  · exact simple_eq.symm
  · funext function
    exact (arguments_eq function).symm

/-- Two families of parsers that do the same on every stream that the rules can read if their calls
nest no deeper than the given depth. A rule for tighter propositions needs less depth than one for
looser ones, and each token needs as much as the four levels of propositions. -/
structure Agree (depth : Nat) (rules other : Rules) : Prop where
  proposition : SameBelow (depth / 4) rules.proposition other.proposition
  disjunction : SameBelow ((depth + 1) / 4) rules.disjunction other.disjunction
  conjunction : SameBelow ((depth + 2) / 4) rules.conjunction other.conjunction
  operand : SameBelow ((depth + 3) / 4) rules.operand other.operand
  term : SameBelow ((depth + 2) / 4) rules.term other.term
  simple : SameBelow ((depth + 3) / 4) rules.simple other.simple
  arguments : ∀ function, SameBelow ((depth + 2) / 4) (rules.arguments function)
    (other.arguments function)

/-- With one more level of calls the rules read longer streams. -/
theorem Agree.unfold {depth : Nat} {rules : Rules} (hagree : Agree depth rules bounded) :
    Agree (depth + 1) rules.unfold bounded := by
  rw [← unfold_bounded]
  -- A rule calls itself on shorter streams, and a tighter one on the stream that it is given.
  constructor
  · apply SameBelow.of_succ
    intro n hn
    exact (hagree.disjunction.mono (by omega)).joinedBody .implies
      (atLevel_sound (.joined .or)).shrinks (hagree.proposition.mono (by omega))
  · apply SameBelow.of_succ
    intro n hn
    exact (hagree.conjunction.mono (by omega)).joinedBody .or
      (atLevel_sound (.joined .and)).shrinks (hagree.disjunction.mono (by omega))
  · apply SameBelow.of_succ
    intro n hn
    exact (hagree.operand.mono (by omega)).joinedBody .and
      (atLevel_sound .operand).shrinks (hagree.conjunction.mono (by omega))
  · apply SameBelow.of_succ
    intro n hn
    exact (hagree.operand.mono (by omega)).operandBody (hagree.proposition.mono (by omega))
  · apply SameBelow.of_succ
    intro n hn
    apply (hagree.proposition.mono (by omega)).termBody shrinks_typedBinder
      (hagree.term.mono (by omega)) term_sound.shrinks
    apply (hagree.simple.mono (by omega)).bind_of_consumes consumes_simple
    exact fun function => (hagree.arguments function).mono (by omega)
  · apply SameBelow.of_succ
    intro n hn
    exact (hagree.proposition.mono (by omega)).simpleBody proposition_sound.shrinks
      (hagree.term.mono (by omega)) term_sound.shrinks
  · intro function
    apply SameBelow.of_succ
    intro n hn
    apply (hagree.simple.mono (by omega)).argumentsBody consumes_simple
    exact fun function => (hagree.arguments function).mono (by omega)

/-- Whatever is called at a depth, it makes no difference for streams that are short enough. -/
theorem agree_iterate (depth : Nat) (rules : Rules) :
    Agree depth (Rules.unfold^[depth] rules) bounded := by
  induction depth with
  | zero =>
      exact ⟨.zero _ _, .zero _ _, .zero _ _, .zero _ _, .zero _ _, .zero _ _, fun _ => .zero _ _⟩
  | succ depth ih =>
      rw [Function.iterate_succ_apply']
      exact ih.unfold

end Rules

end Parser

end Sequitur
