import Sequitur.Proofs.FreeVariables

/-! # Renaming of bound variables

The nameless form of a term says of each bound variable how many binders stand
between it and its own, and keeps the names of the free ones. Terms with the
same nameless form differ in the names of their binders only. What a term
proves, and the kind of its failure, can be computed from its nameless form, so
the choice of those names does not matter, whatever they hide or capture.
-/

namespace Sequitur

open Failure

/-- A term whose binders have no names. A bound variable counts the binders between it and its
own. -/
inductive Nameless where
  | bound (distance : Nat)
  | free (name : String)
  | lam (domain : Proposition) (body : Nameless)
  | app (function argument : Nameless)
  | pair (left right : Nameless)
  | fst (term : Nameless)
  | snd (term : Nameless)
  | inl (term : Nameless) (other : Proposition)
  | inr (other : Proposition) (term : Nameless)
  | cases (scrutinee leftBranch rightBranch : Nameless)
  | unit
  | absurd (term : Nameless) (target : Proposition)
  deriving DecidableEq

/-- A name below the given binders, the innermost first. -/
def Nameless.ofName (binders : List String) (name : String) : Nameless :=
  match binders.idxOf? name with
  | some distance => .bound distance
  | none => .free name

namespace Term

/-- A term below the given binders, the innermost first, without the names of bound variables. -/
def nameless (binders : List String) : Term → Nameless
  | .var name => .ofName binders name
  | .lam name domain body => .lam domain (body.nameless (name :: binders))
  | .app f x => .app (f.nameless binders) (x.nameless binders)
  | .pair l r => .pair (l.nameless binders) (r.nameless binders)
  | .fst t => .fst (t.nameless binders)
  | .snd t => .snd (t.nameless binders)
  | .inl t other => .inl (t.nameless binders) other
  | .inr other t => .inr other (t.nameless binders)
  | .cases t x u y v =>
      .cases (t.nameless binders) (u.nameless (x :: binders)) (v.nameless (y :: binders))
  | .unit => .unit
  | .absurd t target => .absurd (t.nameless binders) target

/-- Two terms that differ in the names of their binders only. -/
def AlphaEquivalent (t u : Term) : Prop :=
  t.nameless [] = u.nameless []

instance (t u : Term) : Decidable (t.AlphaEquivalent u) :=
  inferInstanceAs (Decidable (t.nameless [] = u.nameless []))

end Term

namespace Nameless

/-- A hypothesis that is there, or else an unbound variable. -/
def hypothesis : Option Proposition → Except ErrorKind Proposition
  | some p => .ok p
  | none => .error .unboundVariable

/-- What a nameless term proves under a context for its free variables and the hypotheses of its
binders, the innermost first. Of a failure only the kind is told. -/
def infer (context : Context) (hypotheses : List Proposition) :
    Nameless → Except ErrorKind Proposition
  | .bound distance => hypothesis hypotheses[distance]?
  | .free name => hypothesis (context.find? name)
  | .lam domain body => do
      return .implies domain (← body.infer context (domain :: hypotheses))
  | .app f x => do
      match ← f.infer context hypotheses with
      | .implies a b =>
          if (← x.infer context hypotheses) = a then return b else throw .typeMismatch
      | _ => throw .shapeMismatch
  | .pair l r => do
      return .and (← l.infer context hypotheses) (← r.infer context hypotheses)
  | .fst t => do
      match ← t.infer context hypotheses with
      | .and a _ => return a
      | _ => throw .shapeMismatch
  | .snd t => do
      match ← t.infer context hypotheses with
      | .and _ b => return b
      | _ => throw .shapeMismatch
  | .inl t other => do
      return .or (← t.infer context hypotheses) other
  | .inr other t => do
      return .or other (← t.infer context hypotheses)
  | .cases t u v => do
      match ← t.infer context hypotheses with
      | .or a b =>
          let left ← u.infer context (a :: hypotheses)
          let right ← v.infer context (b :: hypotheses)
          if left = right then return left else throw .typeMismatch
      | _ => throw .shapeMismatch
  | .unit => return .truth
  | .absurd t target => do
      match ← t.infer context hypotheses with
      | .falsity => return target
      | _ => throw .shapeMismatch

/-- A name below binders stands for the hypothesis of the innermost binder of that name, and for
its newest binding in the context if there is none. -/
theorem infer_ofName (context : Context) (newer : List (String × Proposition)) (name : String) :
    (ofName (newer.map Prod.fst) name).infer context (newer.map Prod.snd) =
      hypothesis ((Context.mk (newer ++ context.bindings)).find? name) := by
  induction newer with
  | nil => rfl
  | cons binding newer ih =>
      obtain ⟨other, p⟩ := binding
      rw [List.cons_append]
      change _ = hypothesis ((Context.extend ⟨newer ++ context.bindings⟩ other p).find? name)
      rw [Context.find?_extend, List.map_cons, List.map_cons, ofName, List.idxOf?_cons]
      by_cases heq : name = other
      · simp [heq, infer]
      · rw [if_neg heq, ← ih, ofName, beq_eq_false_iff_ne.mpr (Ne.symm heq)]
        cases (newer.map Prod.fst).idxOf? name <;> simp [infer]

end Nameless

namespace Term

/-- Checking a term, and looking at no more of a failure than its kind, is checking its nameless
form. -/
theorem infer_nameless (context : Context) (newer : List (String × Proposition)) (term : Term) :
    (term.infer ⟨newer ++ context.bindings⟩).mapError TypingError.kind =
      (term.nameless (newer.map Prod.fst)).infer context (newer.map Prod.snd) := by
  induction term generalizing newer with
  | var name =>
      rw [nameless, Nameless.infer_ofName, infer, Context.lookup]
      cases (Context.mk (newer ++ context.bindings)).find? name <;> rfl
  | lam name domain body ih =>
      have hbody := ih ((name, domain) :: newer)
      rw [List.map_cons, List.map_cons] at hbody
      rw [nameless, Nameless.infer, ← hbody, infer]
      change (body.infer ⟨(name, domain) :: newer ++ context.bindings⟩ >>= _).mapError _ = _
      cases body.infer ⟨(name, domain) :: newer ++ context.bindings⟩ <;> rfl
  | app f x ihf ihx =>
      rw [nameless, Nameless.infer, ← ihf, ← ihx, infer]
      cases f.infer ⟨newer ++ context.bindings⟩ with
      | error e => rfl
      | ok p =>
          cases p with
          | implies a b =>
              cases x.infer ⟨newer ++ context.bindings⟩ with
              | error e => rfl
              | ok q =>
                  by_cases heq : q = a
                  · simp [asImplication, agree, Except.mapError, heq]
                  · simp [asImplication, agree, Except.mapError, heq]
                    rfl
          | _ => rfl
  | pair l r ihl ihr =>
      rw [nameless, Nameless.infer, ← ihl, ← ihr, infer]
      cases l.infer ⟨newer ++ context.bindings⟩ with
      | error e => rfl
      | ok a => cases r.infer ⟨newer ++ context.bindings⟩ <;> rfl
  | fst t ih =>
      rw [nameless, Nameless.infer, ← ih, infer]
      cases t.infer ⟨newer ++ context.bindings⟩ with
      | error e => rfl
      | ok p => cases p <;> rfl
  | snd t ih =>
      rw [nameless, Nameless.infer, ← ih, infer]
      cases t.infer ⟨newer ++ context.bindings⟩ with
      | error e => rfl
      | ok p => cases p <;> rfl
  | inl t other ih =>
      rw [nameless, Nameless.infer, ← ih, infer]
      cases t.infer ⟨newer ++ context.bindings⟩ <;> rfl
  | inr other t ih =>
      rw [nameless, Nameless.infer, ← ih, infer]
      cases t.infer ⟨newer ++ context.bindings⟩ <;> rfl
  | cases t x u y v iht ihu ihv =>
      -- The branches have one more binder, whatever the side of the disjunction is.
      have hleft : ∀ a, (u.infer (Context.extend ⟨newer ++ context.bindings⟩ x a)).mapError
          TypingError.kind = (u.nameless (x :: newer.map Prod.fst)).infer context
            (a :: newer.map Prod.snd) :=
        fun a => ihu ((x, a) :: newer)
      have hright : ∀ b, (v.infer (Context.extend ⟨newer ++ context.bindings⟩ y b)).mapError
          TypingError.kind = (v.nameless (y :: newer.map Prod.fst)).infer context
            (b :: newer.map Prod.snd) :=
        fun b => ihv ((y, b) :: newer)
      rw [nameless, Nameless.infer, ← iht, infer]
      cases t.infer ⟨newer ++ context.bindings⟩ with
      | error e => rfl
      | ok p =>
          cases p with
          | or a b =>
              simp only [Except.mapError, ok_bind, asDisjunction, ← hleft, ← hright]
              cases u.infer (Context.extend ⟨newer ++ context.bindings⟩ x a) with
              | error e => rfl
              | ok left =>
                  cases v.infer (Context.extend ⟨newer ++ context.bindings⟩ y b) with
                  | error e => rfl
                  | ok right =>
                      by_cases heq : left = right
                      · simp [join, heq]
                      · simp [join, heq]
                        rfl
          | _ => rfl
  | unit => rfl
  | absurd t target ih =>
      rw [nameless, Nameless.infer, ← ih, infer]
      cases t.infer ⟨newer ++ context.bindings⟩ with
      | error e => rfl
      | ok p => cases p <;> rfl

theorem same_outcome_of_kinds_eq {x y : Except TypingError Proposition}
    (hkinds : x.mapError TypingError.kind = y.mapError TypingError.kind) :
    (∃ p, x = .ok p ∧ y = .ok p) ∨ ∃ e f, x = .error e ∧ y = .error f ∧ e.kind = f.kind := by
  cases x with
  | ok p =>
      cases y with
      | ok q =>
          obtain rfl : p = q := Except.ok.inj hkinds
          exact Or.inl ⟨p, rfl, rfl⟩
      | error f => contradiction
  | error e =>
      cases y with
      | ok q => contradiction
      | error f => exact Or.inr ⟨e, f, rfl, rfl, Except.error.inj hkinds⟩

/-- Inference respects renaming of bound variables. Of two terms that differ in the names of their
binders only, both prove the same proposition, or both fail with an error of the same kind. -/
theorem inference_respects_renaming (context : Context) (t u : Term)
    (halpha : t.AlphaEquivalent u) :
    (∃ p, t.infer context = .ok p ∧ u.infer context = .ok p) ∨
      ∃ e f, t.infer context = .error e ∧ u.infer context = .error f ∧ e.kind = f.kind := by
  apply same_outcome_of_kinds_eq
  have ht : (t.infer context).mapError TypingError.kind = (t.nameless []).infer context [] :=
    infer_nameless context [] t
  have hu : (u.infer context).mapError TypingError.kind = (u.nameless []).infer context [] :=
    infer_nameless context [] u
  rw [ht, hu, halpha]

/-- A case distinction on `s` whose left side takes the name `s` and whose right side takes the name
of another hypothesis proves what it proved before. A variable that is applied to itself is no
function under a new name either, even though the new name hides a function. -/
theorem inference_respects_renaming_captured :
    ((Term.cases (.var "s") "l" (.app (.var "f") (.var "l")) "r" (.var "r")).AlphaEquivalent
        (.cases (.var "s") "s" (.app (.var "f") (.var "s")) "f" (.var "f")) ∧
      (Term.cases (.var "s") "s" (.app (.var "f") (.var "s")) "f" (.var "f")).infer
          (.ofList [("f", .implies (.atom "A") .truth), ("s", .or (.atom "A") .truth)]) =
        .ok .truth) ∧
    (Term.lam "x" (.atom "A") (.app (.var "x") (.var "x"))).AlphaEquivalent
        (.lam "f" (.atom "A") (.app (.var "f") (.var "f"))) ∧
      ∃ e f, (Term.lam "x" (.atom "A") (.app (.var "x") (.var "x"))).infer
          (.ofList [("f", .implies (.atom "A") .truth)]) = .error e ∧
        (Term.lam "f" (.atom "A") (.app (.var "f") (.var "f"))).infer
          (.ofList [("f", .implies (.atom "A") .truth)]) = .error f ∧
        e ≠ f ∧ e.kind = f.kind := by
  refine ⟨⟨by decide, ?_⟩, by decide, ?_⟩
  · rcases inference_respects_renaming
      (.ofList [("f", .implies (.atom "A") .truth), ("s", .or (.atom "A") .truth)])
      (.cases (.var "s") "l" (.app (.var "f") (.var "l")) "r" (.var "r"))
      (.cases (.var "s") "s" (.app (.var "f") (.var "s")) "f" (.var "f")) (by decide) with
      ⟨p, ht, hu⟩ | ⟨e, f, ht, hu, hkind⟩
    · obtain rfl : Proposition.truth = p := Except.ok.inj ht
      exact hu
    · contradiction
  · rcases inference_respects_renaming (.ofList [("f", .implies (.atom "A") .truth)])
      (.lam "x" (.atom "A") (.app (.var "x") (.var "x")))
      (.lam "f" (.atom "A") (.app (.var "f") (.var "f"))) (by decide) with
      ⟨p, ht, hu⟩ | ⟨e, f, ht, hu, hkind⟩
    · contradiction
    · refine ⟨e, f, ht, hu, ?_, hkind⟩
      obtain rfl := Except.error.inj ht
      obtain rfl := Except.error.inj hu
      decide

end Term

end Sequitur
