import Sequitur.Parser.Proposition
import Sequitur.Proofs.Parsing

/-! # Grammar of propositions

Which tokens make up which proposition: implication is the loosest connective,
then disjunction, then conjunction, and each of them joins operands of the next
tighter level to the right. The parsers take exactly the tokens that the
grammar allows. The bounds of their recursion are never reached, since no
derivation is deeper than it is long. No tokens make up two propositions, so
the levels settle which connective takes its operands first.
-/

namespace Sequitur.Grammar

/-- The infix connectives. -/
inductive Connective where
  | implies
  | or
  | and
  deriving DecidableEq

namespace Connective

/-- The kind of the tokens of a connective. -/
def kind : Connective → Token.Kind
  | .implies => .implies
  | .or => .or
  | .and => .and

theorem kind_ne_eof (connective : Connective) : connective.kind ≠ .eof := by
  cases connective <;> decide

/-- The proposition that a connective makes of two. -/
def join : Connective → Proposition → Proposition → Proposition
  | .implies => .implies
  | .or => .or
  | .and => .and

end Connective

/-- The levels of propositions: those joined by a connective or by a tighter one, and operands of
the tightest connective. -/
inductive Level where
  | joined (connective : Connective)
  | operand
  deriving DecidableEq

/-- The level of the operands of a connective. -/
def Connective.operands : Connective → Level
  | .implies => .joined .or
  | .or => .joined .and
  | .and => .operand

/-- The tokens that make up a proposition of a level. -/
inductive DerivesProposition : Level → List Token → Proposition → Prop where
  | single {connective : Connective} {tokens : List Token} {p : Proposition}
      (hp : DerivesProposition connective.operands tokens p) :
      DerivesProposition (.joined connective) tokens p
  | join {connective : Connective} {left right : List Token} {op : Token} {a b : Proposition}
      (ha : DerivesProposition connective.operands left a) (hop : op.kind = connective.kind)
      (hb : DerivesProposition (.joined connective) right b) :
      DerivesProposition (.joined connective) (left ++ op :: right) (connective.join a b)
  | negation {op : Token} {tokens : List Token} {p : Proposition} (hop : op.kind = .not)
      (hp : DerivesProposition .operand tokens p) :
      DerivesProposition .operand (op :: tokens) p.negation
  | atom {name : Token} (hname : name.kind = .ident) :
      DerivesProposition .operand [name] (.atom name.text)
  | truth {token : Token} (htoken : token.kind = .truth) :
      DerivesProposition .operand [token] .truth
  | falsity {token : Token} (htoken : token.kind = .falsity) :
      DerivesProposition .operand [token] .falsity
  | parens {lpar rpar : Token} {tokens : List Token} {p : Proposition}
      (hlpar : lpar.kind = .lparen) (hp : DerivesProposition (.joined .implies) tokens p)
      (hrpar : rpar.kind = .rparen) :
      DerivesProposition .operand (lpar :: (tokens ++ [rpar])) p

theorem DerivesProposition.length_pos {level : Level} {tokens : List Token} {p : Proposition}
    (hderives : DerivesProposition level tokens p) : 0 < tokens.length := by
  induction hderives with
  | single _ ih => exact ih
  | _ => simp

namespace Level

/-- The parser of a level. One number bounds the nesting, the other the connectives of the level. -/
def parser (fuel count : Nat) : Level → Parser Proposition
  | .joined .implies =>
      Parser.chainRight .implies .implies (Parser.disjunctionOf (Parser.operandWithin fuel) fuel)
        count
  | .joined .or =>
      Parser.chainRight .or .or (Parser.conjunctionOf (Parser.operandWithin fuel) fuel) count
  | .joined .and => Parser.chainRight .and .and (Parser.operandWithin fuel) count
  | .operand => Parser.operandWithin fuel

theorem parser_joined (fuel count : Nat) (connective : Connective) :
    (joined connective).parser fuel count =
      Parser.chainRight connective.kind connective.join (connective.operands.parser fuel fuel)
        count := by
  cases connective <;> rfl

/-- A token in front of which every proposition of the level ends. -/
def Stops (kind : Token.Kind) : Level → Prop
  | .joined .implies => kind ≠ .implies ∧ kind ≠ .or ∧ kind ≠ .and
  | .joined .or => kind ≠ .or ∧ kind ≠ .and
  | .joined .and => kind ≠ .and
  | .operand => True

theorem Stops.operands {kind : Token.Kind} {connective : Connective}
    (hstops : (joined connective).Stops kind) :
    connective.operands.Stops kind ∧ kind ≠ connective.kind := by
  cases connective with
  | implies => exact ⟨hstops.2, hstops.1⟩
  | or => exact ⟨hstops.2, hstops.1⟩
  | and => exact ⟨trivial, hstops⟩

theorem stops_eof (level : Level) : level.Stops .eof := by
  rcases level with (_ | _ | _) | _ <;> simp [Stops]

/-- An operand ends in front of the connective that joins it. -/
theorem stops_kind (connective : Connective) :
    connective.operands.Stops connective.kind := by
  cases connective <;> simp [Connective.operands, Connective.kind, Stops]

end Level

open Sequitur.Parser

/-! ## Parsers read what the grammar derives -/

theorem chainRight_succ_yields {connective : Connective} {operand : Parser Proposition}
    {count : Nat} {stream rest : TokenStream} {p : Proposition} :
    (chainRight connective.kind connective.join operand (count + 1)).Yields stream p rest ↔
      ∃ a middle, operand.Yields stream a middle ∧
        ((∃ op next b, op.kind = connective.kind ∧ middle = next.prepend [op] ∧
          (chainRight connective.kind connective.join operand count).Yields next b rest ∧
          p = connective.join a b) ∨
        middle.current.kind ≠ connective.kind ∧ p = a ∧ rest = middle) := by
  rw [chainRight, joinedBody, yields_bind]
  simp only [yields_sees_ite connective.kind connective.kind_ne_eof, yields_bind, yields_pure]
  constructor
  · rintro ⟨a, middle, ha, ⟨op, next, hop, rfl, b, _, hb, rfl, rfl⟩ | ⟨hne, rfl, rfl⟩⟩
    · exact ⟨a, _, ha, Or.inl ⟨op, next, b, hop, rfl, hb, rfl⟩⟩
    · exact ⟨a, middle, ha, Or.inr ⟨hne, rfl, rfl⟩⟩
  · rintro ⟨a, middle, ha, ⟨op, next, b, hop, rfl, hb, rfl⟩ | ⟨hne, rfl, rfl⟩⟩
    · exact ⟨a, _, ha, Or.inl ⟨op, next, hop, rfl, b, rest, hb, rfl, rfl⟩⟩
    · exact ⟨p, rest, ha, Or.inr ⟨hne, rfl, rfl⟩⟩

theorem chainRight_sound (connective : Connective) {operand : Parser Proposition}
    (hoperand : operand.Sound (DerivesProposition connective.operands)) (count : Nat) :
    (chainRight connective.kind connective.join operand count).Sound
      (DerivesProposition (.joined connective)) := by
  induction count with
  | zero =>
      intro stream p rest hyields
      obtain ⟨tokens, hstream, hp⟩ := hoperand hyields
      exact ⟨tokens, hstream, .single hp⟩
  | succ count ih =>
      intro stream p rest hyields
      obtain ⟨a, middle, hleft, hrest⟩ := chainRight_succ_yields.mp hyields
      obtain ⟨left, rfl, ha⟩ := hoperand hleft
      rcases hrest with ⟨op, next, b, hop, rfl, hright, rfl⟩ | ⟨_, rfl, rfl⟩
      · obtain ⟨right, rfl, hb⟩ := ih hright
        exact ⟨left ++ op :: right, by simp, .join ha hop hb⟩
      · exact ⟨left, rfl, .single ha⟩

/-- If the operands of the tightest level are read soundly, so are the propositions of every
level. -/
theorem Level.parser_sound {fuel : Nat}
    (hoperand : (operandWithin fuel).Sound (DerivesProposition .operand)) (level : Level)
    (count : Nat) : (level.parser fuel count).Sound (DerivesProposition level) := by
  have hand : ∀ count, ((joined .and).parser fuel count).Sound
      (DerivesProposition (.joined .and)) :=
    chainRight_sound .and hoperand
  have hor : ∀ count, ((joined .or).parser fuel count).Sound
      (DerivesProposition (.joined .or)) :=
    chainRight_sound .or (hand fuel)
  cases level with
  | operand => exact hoperand
  | joined connective =>
      cases connective with
      | and => exact hand count
      | or => exact hor count
      | implies => exact chainRight_sound .implies (hor fuel) count

/-- The first token decides which operand is read. -/
theorem operandWithin_succ_yields {fuel : Nat} {token : Token} {stream rest : TokenStream}
    {p : Proposition} :
    (operandWithin (fuel + 1)).Yields (stream.prepend [token]) p rest ↔
      match token.kind with
      | .not => ∃ q, (operandWithin fuel).Yields stream q rest ∧ p = q.negation
      | .ident => p = .atom token.text ∧ rest = stream
      | .truth => p = .truth ∧ rest = stream
      | .falsity => p = .falsity ∧ rest = stream
      | .lparen => ∃ rpar, rpar.kind = .rparen ∧
          ((Level.joined .implies).parser fuel fuel).Yields stream p (rest.prepend [rpar])
      | _ => False := by
  rw [operandWithin, operandBody, yields_peek_bind, TokenStream.current_prepend_cons]
  generalize token.kind = kind
  split
  next =>
    rw [yields_advance_prepend, TokenStream.prepend_nil]
    exact yields_bind_pure
  next =>
    rw [yields_advance_prepend, TokenStream.prepend_nil, yields_pure]
    exact and_congr eq_comm eq_comm
  next =>
    rw [yields_advance_prepend, TokenStream.prepend_nil, yields_pure]
    exact and_congr eq_comm eq_comm
  next =>
    rw [yields_advance_prepend, TokenStream.prepend_nil, yields_pure]
    exact and_congr eq_comm eq_comm
  next =>
    rw [yields_advance_prepend, TokenStream.prepend_nil, yields_bind]
    simp only [yields_expect_bind .rparen (by decide), yields_pure]
    constructor
    · rintro ⟨q, _, hq, rpar, _, hrpar, rfl, rfl, rfl⟩
      exact ⟨rpar, hrpar, hq⟩
    · rintro ⟨rpar, hrpar, hp⟩
      exact ⟨p, _, hp, rpar, rest, hrpar, rfl, rfl, rfl⟩
  next =>
    simp only [not_yields_fail]

theorem operandWithin_sound (fuel : Nat) :
    (operandWithin fuel).Sound (DerivesProposition .operand) := by
  induction fuel with
  | zero =>
      intro stream p rest hyields
      exact absurd hyields not_yields_fail
  | succ fuel ih =>
      intro stream p rest hyields
      rcases stream.eof_or_prepend with heof | ⟨token, next, rfl⟩
      · rw [operandWithin, operandBody, yields_peek_bind, heof] at hyields
        exact absurd hyields not_yields_fail
      rw [operandWithin_succ_yields] at hyields
      split at hyields
      next hkind =>
        obtain ⟨q, hq, rfl⟩ := hyields
        obtain ⟨tokens, rfl, hderives⟩ := ih hq
        exact ⟨token :: tokens, by simp, .negation hkind hderives⟩
      next hkind =>
        obtain ⟨rfl, rfl⟩ := hyields
        exact ⟨[token], rfl, .atom hkind⟩
      next hkind =>
        obtain ⟨rfl, rfl⟩ := hyields
        exact ⟨[token], rfl, .truth hkind⟩
      next hkind =>
        obtain ⟨rfl, rfl⟩ := hyields
        exact ⟨[token], rfl, .falsity hkind⟩
      next hkind =>
        obtain ⟨rpar, hrpar, hp⟩ := hyields
        obtain ⟨tokens, rfl, hderives⟩ := Level.parser_sound ih (.joined .implies) fuel hp
        exact ⟨token :: (tokens ++ [rpar]), by simp, .parens hkind hderives hrpar⟩
      next => contradiction

theorem proposition_yields {stream rest : TokenStream} {p : Proposition} :
    proposition.Yields stream p rest ↔
      ((Level.joined .implies).parser (stream.length + 1) (stream.length + 1)).Yields
        stream p rest := by
  rw [proposition, yields_bounded]
  exact Iff.rfl

theorem proposition_sound : proposition.Sound (DerivesProposition (.joined .implies)) := by
  intro stream p rest hyields
  rw [proposition_yields] at hyields
  exact Level.parser_sound (operandWithin_sound _) (.joined .implies) _ hyields

/-! ## Parsers read all that the grammar derives -/

/-- A derived proposition is read from the front of every stream that goes on with a token in front
of which it ends. -/
theorem DerivesProposition.yields {level : Level} {tokens : List Token} {p : Proposition}
    (hderives : DerivesProposition level tokens p) {fuel count : Nat}
    (hfuel : tokens.length ≤ fuel) (hcount : tokens.length ≤ count) {rest : TokenStream}
    (hstops : level.Stops rest.current.kind) :
    (level.parser fuel count).Yields (rest.prepend tokens) p rest := by
  induction hderives generalizing fuel count rest with
  | @single connective tokens p _ ih =>
      obtain ⟨hstops, hne⟩ := hstops.operands
      have hoperand := ih hfuel hfuel hstops
      rw [Level.parser_joined]
      cases count with
      | zero => exact hoperand
      | succ count =>
          exact chainRight_succ_yields.mpr ⟨p, rest, hoperand, Or.inr ⟨hne, rfl, rfl⟩⟩
  | @join connective left right op a b _ hop _ iha ihb =>
      simp only [List.length_append, List.length_cons] at hfuel hcount
      obtain ⟨count, rfl⟩ : ∃ n, count = n + 1 := ⟨count - 1, by omega⟩
      -- The left operand ends in front of the connective, the right one in front of the rest.
      have hleft : (connective.operands.parser fuel fuel).Yields
          ((rest.prepend (op :: right)).prepend left) a (rest.prepend (op :: right)) := by
        apply iha (by omega) (by omega)
        rw [TokenStream.current_prepend_cons, hop]
        exact Level.stops_kind connective
      have hright : ((Level.joined connective).parser fuel count).Yields
          (rest.prepend right) b rest :=
        ihb (by omega) (by omega) hstops
      rw [Level.parser_joined] at hright ⊢
      rw [← TokenStream.prepend_prepend]
      refine chainRight_succ_yields.mpr ⟨a, _, hleft, Or.inl ?_⟩
      exact ⟨op, rest.prepend right, b, hop, by simp, hright, rfl⟩
  | @negation op tokens p hop _ ih =>
      simp only [List.length_cons] at hfuel
      obtain ⟨fuel, rfl⟩ : ∃ n, fuel = n + 1 := ⟨fuel - 1, by omega⟩
      have hp : (operandWithin fuel).Yields (rest.prepend tokens) p rest :=
        ih (by omega) (by omega : tokens.length ≤ fuel) hstops
      rw [Level.parser, TokenStream.prepend_cons, operandWithin_succ_yields, hop]
      exact ⟨p, hp, rfl⟩
  | @atom name hname =>
      obtain ⟨fuel, rfl⟩ : ∃ n, fuel = n + 1 := ⟨fuel - 1, by simp at hfuel; omega⟩
      rw [Level.parser, operandWithin_succ_yields, hname]
      exact ⟨rfl, rfl⟩
  | @truth token htoken =>
      obtain ⟨fuel, rfl⟩ : ∃ n, fuel = n + 1 := ⟨fuel - 1, by simp at hfuel; omega⟩
      rw [Level.parser, operandWithin_succ_yields, htoken]
      exact ⟨rfl, rfl⟩
  | @falsity token htoken =>
      obtain ⟨fuel, rfl⟩ : ∃ n, fuel = n + 1 := ⟨fuel - 1, by simp at hfuel; omega⟩
      rw [Level.parser, operandWithin_succ_yields, htoken]
      exact ⟨rfl, rfl⟩
  | @parens lpar rpar tokens p hlpar _ hrpar ih =>
      simp only [List.length_cons, List.length_append] at hfuel
      obtain ⟨fuel, rfl⟩ : ∃ n, fuel = n + 1 := ⟨fuel - 1, by omega⟩
      have hp : ((Level.joined .implies).parser fuel fuel).Yields
          ((rest.prepend [rpar]).prepend tokens) p (rest.prepend [rpar]) := by
        apply ih (by omega) (by omega)
        rw [TokenStream.current_prepend_cons, hrpar]
        simp [Level.Stops]
      rw [Level.parser, TokenStream.prepend_cons, operandWithin_succ_yields, hlpar,
        ← TokenStream.prepend_prepend]
      exact ⟨rpar, hrpar, hp⟩

theorem DerivesProposition.proposition_yields {tokens : List Token} {p : Proposition}
    (hderives : DerivesProposition (.joined .implies) tokens p) {rest : TokenStream}
    (hstops : (Level.joined .implies).Stops rest.current.kind) :
    proposition.Yields (rest.prepend tokens) p rest := by
  rw [Grammar.proposition_yields, TokenStream.length_prepend]
  exact hderives.yields (by omega) (by omega) hstops

/-! ## Unambiguity -/

/-- Tokens make up at most one proposition of a level, since the parser of the level reads each
proposition that they make up. -/
theorem DerivesProposition.unique {level : Level} {tokens : List Token} {p q : Proposition}
    (hp : DerivesProposition level tokens p) (hq : DerivesProposition level tokens q) : p = q := by
  -- Behind the tokens the text ends, and every level stops there.
  let ended : TokenStream := ⟨[], 0⟩
  have hstops : level.Stops ended.current.kind := level.stops_eof
  have hreadP : (level.parser tokens.length tokens.length).Yields (ended.prepend tokens) p ended :=
    hp.yields le_rfl le_rfl hstops
  have hreadQ : (level.parser tokens.length tokens.length).Yields (ended.prepend tokens) q ended :=
    hq.yields le_rfl le_rfl hstops
  exact hreadP.unique hreadQ

/-! ## Precedence -/

theorem DerivesProposition.of_operand {tokens : List Token} {p : Proposition}
    (hderives : DerivesProposition .operand tokens p) (level : Level) :
    DerivesProposition level tokens p := by
  cases level with
  | operand => exact hderives
  | joined connective =>
      cases connective with
      | and => exact .single hderives
      | or => exact .single (.single hderives)
      | implies => exact .single (.single (.single hderives))

theorem DerivesProposition.of_joined {connective : Connective} {tokens : List Token}
    {p : Proposition} (hderives : DerivesProposition (.joined connective) tokens p) :
    DerivesProposition (.joined .implies) tokens p := by
  cases connective with
  | and => exact .single (.single hderives)
  | or => exact .single hderives
  | implies => exact hderives

/-- How tightly a connective binds. -/
def Connective.tightness : Connective → Nat
  | .implies => 0
  | .or => 1
  | .and => 2

theorem Connective.tightness_injective : Function.Injective Connective.tightness := by
  intro first second htightness
  cases first <;> cases second <;> simp [tightness] at htightness ⊢

/-- What a connective joins can be an operand of every looser one. -/
theorem DerivesProposition.of_tighter {tighter looser : Connective} {tokens : List Token}
    {p : Proposition} (hderives : DerivesProposition (.joined tighter) tokens p)
    (htightness : looser.tightness < tighter.tightness) :
    DerivesProposition looser.operands tokens p := by
  cases looser with
  | implies =>
      cases tighter with
      | implies => contradiction
      | or => exact hderives
      | and => exact .single hderives
  | or =>
      cases tighter with
      | implies => contradiction
      | or => contradiction
      | and => exact hderives
  | and => cases tighter <;> contradiction

/-- Three propositions with a connective between each two of them. The tighter connective takes its
operands first, and of two equal ones the right one does. -/
def Connective.group (first second : Connective) (a b c : Proposition) : Proposition :=
  if second.tightness < first.tightness then second.join (first.join a b) c
  else first.join a (second.join b c)

theorem DerivesProposition.join_operands {connective : Connective} {left right : List Token}
    {op : Token} {a b : Proposition} (ha : DerivesProposition .operand left a)
    (hop : op.kind = connective.kind) (hb : DerivesProposition .operand right b) :
    DerivesProposition (.joined connective) (left ++ op :: right) (connective.join a b) :=
  .join (ha.of_operand _) hop (hb.of_operand _)

theorem DerivesProposition.group {first second : Connective} {left middle right : List Token}
    {op₁ op₂ : Token} {a b c : Proposition} (ha : DerivesProposition .operand left a)
    (hop₁ : op₁.kind = first.kind) (hb : DerivesProposition .operand middle b)
    (hop₂ : op₂.kind = second.kind) (hc : DerivesProposition .operand right c) :
    DerivesProposition (.joined .implies) (left ++ op₁ :: (middle ++ op₂ :: right))
      (first.group second a b c) := by
  unfold Connective.group
  split
  next htightness =>
    have hfirst : DerivesProposition second.operands (left ++ op₁ :: middle) (first.join a b) :=
      (join_operands ha hop₁ hb).of_tighter htightness
    have htokens : left ++ op₁ :: (middle ++ op₂ :: right) =
        (left ++ op₁ :: middle) ++ op₂ :: right := by
      simp
    rw [htokens]
    exact (DerivesProposition.join hfirst hop₂ (hc.of_operand _)).of_joined
  next htightness =>
    -- The second connective binds as tightly as the first one, or tighter.
    have hsecond : DerivesProposition (.joined first) (middle ++ op₂ :: right)
        (second.join b c) := by
      rcases Nat.lt_or_eq_of_le (Nat.le_of_not_lt htightness) with hlt | heq
      · exact .single ((join_operands hb hop₂ hc).of_tighter hlt)
      · rw [Connective.tightness_injective heq]
        exact join_operands hb hop₂ hc
    exact (DerivesProposition.join (ha.of_operand _) hop₁ hsecond).of_joined

end Sequitur.Grammar

namespace Sequitur

open Grammar

/-- A text is read as a proposition exactly if it has tokens and the grammar makes the proposition
of them. -/
theorem Proposition.parse_eq_ok_iff (text : String) (p : Proposition) :
    Proposition.parse text = .ok p ↔
      ∃ stream, TokenStream.ofText text = .ok stream ∧
        DerivesProposition (.joined .implies) stream.tokens p := by
  apply Parser.read_eq_ok_iff_derives proposition_sound
  intro tokens p rest hderives heof
  apply hderives.proposition_yields
  rw [heof]
  exact Level.stops_eof _

/-- The grammar of propositions is exactly what is read, and it is unambiguous: a text is read as a
proposition if and only if it has tokens and these derive the proposition, and no tokens derive two
propositions of a level. So between three operands the tighter connective takes its operands first,
conjunction before disjunction before implication, each of them associates to the right, and a
negation takes the nearest operand alone. -/
theorem proposition_grammar_exact :
    (∀ (text : String) (p : Proposition), Proposition.parse text = .ok p ↔
      ∃ stream, TokenStream.ofText text = .ok stream ∧
        DerivesProposition (.joined .implies) stream.tokens p) ∧
    (∀ (level : Level) (tokens : List Token) (p q : Proposition),
      DerivesProposition level tokens p → DerivesProposition level tokens q → p = q) ∧
    (∀ (first second : Connective) (left middle right : List Token) (op₁ op₂ : Token)
        (a b c : Proposition), DerivesProposition .operand left a → op₁.kind = first.kind →
      DerivesProposition .operand middle b → op₂.kind = second.kind →
      DerivesProposition .operand right c →
      ∀ p, DerivesProposition (.joined .implies) (left ++ op₁ :: (middle ++ op₂ :: right)) p ↔
        p = first.group second a b c) ∧
    ∀ (connective : Connective) (neg op : Token) (left right : List Token) (a b : Proposition),
      neg.kind = .not → DerivesProposition .operand left a → op.kind = connective.kind →
      DerivesProposition .operand right b →
      ∀ p, DerivesProposition (.joined .implies) (neg :: (left ++ op :: right)) p ↔
        p = connective.join a.negation b := by
  refine ⟨Proposition.parse_eq_ok_iff, ?_, ?_, ?_⟩
  · intro level tokens p q hp hq
    exact hp.unique hq
  · intro first second left middle right op₁ op₂ a b c ha hop₁ hb hop₂ hc p
    have hgroup := DerivesProposition.group ha hop₁ hb hop₂ hc
    constructor
    · intro hp
      exact hp.unique hgroup
    · rintro rfl
      exact hgroup
  · intro connective neg op left right a b hneg ha hop hb p
    have hjoin : DerivesProposition (.joined .implies) (neg :: (left ++ op :: right))
        (connective.join a.negation b) :=
      (DerivesProposition.join_operands (.negation hneg ha) hop hb).of_joined
    constructor
    · intro hp
      exact hp.unique hjoin
    · rintro rfl
      exact hjoin

/-- All connectives in one text: the second implication is the consequent of the first one, whose
antecedent is a disjunction, and the negation reaches the first atom only. -/
theorem proposition_grammar_exact_mixed :
    Proposition.parse "not A /\\ B \\/ C => D => _" =
        .ok (.implies (.or (.and (.negation (.atom "A")) (.atom "B")) (.atom "C"))
          (.implies (.atom "D") .falsity)) ∧
      (∃ stream, TokenStream.ofText "not A /\\ B \\/ C => D => _" = .ok stream ∧
        ∀ q, DerivesProposition (.joined .implies) stream.tokens q →
          q = .implies (.or (.and (.negation (.atom "A")) (.atom "B")) (.atom "C"))
            (.implies (.atom "D") .falsity)) ∧
      (∀ p, DerivesProposition (.joined .implies)
          [⟨.ident, "A", 1⟩, ⟨.or, "∨", 3⟩, ⟨.ident, "B", 5⟩, ⟨.and, "∧", 7⟩, ⟨.truth, "T", 9⟩] p ↔
        p = .or (.atom "A") (.and (.atom "B") .truth)) ∧
      ∀ p, DerivesProposition (.joined .implies)
          [⟨.not, "¬", 1⟩, ⟨.ident, "A", 2⟩, ⟨.implies, "⇒", 4⟩, ⟨.ident, "B", 6⟩] p ↔
        p = .implies (.negation (.atom "A")) (.atom "B") := by
  have hparse : Proposition.parse "not A /\\ B \\/ C => D => _" =
      .ok (.implies (.or (.and (.negation (.atom "A")) (.atom "B")) (.atom "C"))
        (.implies (.atom "D") .falsity)) := by
    cbv
  obtain ⟨stream, hstream, hderives⟩ := (proposition_grammar_exact.1 _ _).mp hparse
  refine ⟨hparse, ⟨stream, hstream, ?_⟩, ?_, ?_⟩
  · intro q hq
    exact proposition_grammar_exact.2.1 _ _ _ _ hq hderives
  · exact proposition_grammar_exact.2.2.1 .or .and [⟨.ident, "A", 1⟩] [⟨.ident, "B", 5⟩]
      [⟨.truth, "T", 9⟩] ⟨.or, "∨", 3⟩ ⟨.and, "∧", 7⟩ _ _ _ (.atom rfl) rfl (.atom rfl) rfl
      (.truth rfl)
  · exact proposition_grammar_exact.2.2.2 .implies ⟨.not, "¬", 1⟩ ⟨.implies, "⇒", 4⟩
      [⟨.ident, "A", 2⟩] [⟨.ident, "B", 6⟩] _ _ rfl (.atom rfl) rfl (.atom rfl)

end Sequitur
