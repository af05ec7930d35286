import Sequitur.ErrorKind
import Sequitur.Labelled

/-! # Type checking

A term determines the proposition that it proves under a context, if it
proves any. `Term.infer` computes that proposition, visiting subterms from
left to right and reporting the first fault; `Term.check` compares it with
an expected one.
-/

namespace Sequitur

/-- The shapes that the elimination forms ask of a proposition. -/
inductive Shape where
  | implication
  | conjunction
  | disjunction
  | falsity
  deriving DecidableEq

/-- The name of a shape, as in "should prove a conjunction". -/
def Shape.text : Shape → String
  | .implication => "an implication"
  | .conjunction => "a conjunction"
  | .disjunction => "a disjunction"
  | .falsity => "falsity"

/-- Why a term proves nothing, or not what is expected of it. -/
inductive TypingError where
  | unbound (name : String)
  | wrongShape (term : Term) (wanted : Shape) (found : Proposition)
  | branchesDisagree (left right : Proposition)
  | mismatch (term : Term) (found expected : Proposition)
  deriving DecidableEq

namespace TypingError

/-- The kind of a type error. -/
def kind : TypingError → ErrorKind
  | .unbound _ => .unboundVariable
  | .wrongShape .. => .shapeMismatch
  | .branchesDisagree .. => .typeMismatch
  | .mismatch .. => .typeMismatch

/-- The text of a type error. -/
def message : TypingError → String
  | .unbound name => "Unbound variable: " ++ name
  | .wrongShape term wanted found =>
      term.labelled ++ " should prove " ++ wanted.text ++ ", but proves " ++ found.labelled
  | .branchesDisagree left right =>
      "case branches disagree: " ++ left.labelled ++ " vs " ++ right.labelled
  | .mismatch term found expected =>
      term.labelled ++ " proves " ++ found.labelled ++ ", expected " ++ expected.labelled

end TypingError

/-- The newest binding of a name, which has to be bound. -/
def Context.lookup (context : Context) (name : String) : Except TypingError Proposition :=
  match context.find? name with
  | some p => .ok p
  | none => .error (.unbound name)

theorem Context.contains_iff_lookup_ok (context : Context) (name : String) :
    context.contains name = true ↔ ∃ p, context.lookup name = .ok p := by
  rw [contains_eq_isSome, lookup]
  cases context.find? name with
  | none => simp
  | some p => simp

/-- The newest binding of a name that is known to be bound: then looking it up cannot fail. -/
def Context.get (context : Context) (name : String) (hbound : context.contains name = true) :
    Proposition :=
  match hlookup : context.lookup name with
  | .ok p => p
  | .error _ =>
      absurd ((context.contains_iff_lookup_ok name).mp hbound) (by simp [hlookup])

theorem Context.lookup_eq_get {context : Context} {name : String}
    (hbound : context.contains name = true) :
    context.lookup name = .ok (context.get name hbound) := by
  unfold get
  split
  next p hlookup => exact hlookup
  next error hlookup =>
    obtain ⟨p, hp⟩ := (context.contains_iff_lookup_ok name).mp hbound
    rw [hp] at hlookup
    contradiction

namespace Term

/-- The two sides of the implication that a term proves. -/
def asImplication (term : Term) : Proposition → Except TypingError (Proposition × Proposition)
  | .implies a b => .ok (a, b)
  | p => .error (.wrongShape term .implication p)

/-- The two sides of the conjunction that a term proves. -/
def asConjunction (term : Term) : Proposition → Except TypingError (Proposition × Proposition)
  | .and a b => .ok (a, b)
  | p => .error (.wrongShape term .conjunction p)

/-- The two sides of the disjunction that a term proves. -/
def asDisjunction (term : Term) : Proposition → Except TypingError (Proposition × Proposition)
  | .or a b => .ok (a, b)
  | p => .error (.wrongShape term .disjunction p)

/-- Nothing but the fact that a term proves falsity. -/
def asFalsity (term : Term) : Proposition → Except TypingError Unit
  | .falsity => .ok ()
  | p => .error (.wrongShape term .falsity p)

/-- Compare what a term proves with what is expected of it. -/
def agree (term : Term) (found expected : Proposition) : Except TypingError Unit :=
  if found = expected then .ok () else .error (.mismatch term found expected)

/-- The common proposition of two branches. -/
def join (left right : Proposition) : Except TypingError Proposition :=
  if left = right then .ok left else .error (.branchesDisagree left right)

/-- The proposition that a term proves under a context. -/
def infer (context : Context) : Term → Except TypingError Proposition
  | .var name => context.lookup name
  | .lam name domain body => do
      let p ← body.infer (context.extend name domain)
      return .implies domain p
  | .app f x => do
      let (a, b) ← f.asImplication (← f.infer context)
      x.agree (← x.infer context) a
      return b
  | .pair l r => do
      let a ← l.infer context
      let b ← r.infer context
      return .and a b
  | .fst t => do
      let (a, _) ← t.asConjunction (← t.infer context)
      return a
  | .snd t => do
      let (_, b) ← t.asConjunction (← t.infer context)
      return b
  | .inl t other => do
      let a ← t.infer context
      return .or a other
  | .inr other t => do
      let b ← t.infer context
      return .or other b
  | .cases t x u y v => do
      let (a, b) ← t.asDisjunction (← t.infer context)
      let left ← u.infer (context.extend x a)
      let right ← v.infer (context.extend y b)
      join left right
  | .unit => return .truth
  | .absurd t target => do
      t.asFalsity (← t.infer context)
      return target

/-- Whether a term proves the expected proposition under a context. -/
def check (context : Context) (term : Term) (expected : Proposition) : Except TypingError Unit := do
  term.agree (← term.infer context) expected

end Term

end Sequitur
