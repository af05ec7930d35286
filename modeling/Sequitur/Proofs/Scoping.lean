import Sequitur.Proofs.Contexts

/-! # Scoping

The checker meets the free variables of a term from left to right and looks
each of them up. A term that proves something has all of them bound, and a
lookup that fails names the first one that is not. Below a binder the name that
it binds is not missing, so that a name which is missing there is missing
outside as well. All other faults lie in the propositions, not in the names.
-/

namespace Sequitur

namespace Context

/-- The first of some names that is not bound. -/
def firstUnbound (context : Context) (names : List String) : Option String :=
  names.find? fun name => !context.contains name

theorem firstUnbound_append (context : Context) (names others : List String) :
    context.firstUnbound (names ++ others) =
      (context.firstUnbound names).or (context.firstUnbound others) :=
  List.find?_append

theorem firstUnbound_eq_none_iff {context : Context} {names : List String} :
    context.firstUnbound names = none ↔ ∀ name ∈ names, context.contains name = true := by
  simp [firstUnbound]

theorem mem_of_firstUnbound {context : Context} {names : List String} {name : String}
    (hfirst : context.firstUnbound names = some name) :
    name ∈ names ∧ context.contains name = false :=
  ⟨List.mem_of_find?_eq_some hfirst, by simpa using List.find?_some hfirst⟩

/-- What is missing below a binder is missing outside, and it is not the name of the binder. -/
theorem firstUnbound_extend (context : Context) (binder : String) (p : Proposition)
    (names : List String) :
    (context.extend binder p).firstUnbound names =
      context.firstUnbound (names.filter (· ≠ binder)) := by
  rw [firstUnbound, firstUnbound, List.find?_filter]
  apply List.find?_congr
  intro name _
  rw [contains_extend]
  by_cases heq : name = binder
  · simp [heq]
  · simp [heq, Ne.symm heq]

end Context

/-! ## Names that a check looks up -/

section

open Failure

variable {α β : Type} {context : Context} {names more : List String}

/-- What a check says about the names that it looks up: it succeeds only if all of them are bound,
and if it stumbles over a name, then over the first one that is not. -/
structure Scoped (context : Context) (names : List String) (outcome : Except TypingError α) :
    Prop where
  bound : ∀ a, outcome = .ok a → context.firstUnbound names = none
  unbound : ∀ name, outcome = .error (.unbound name) → context.firstUnbound names = some name

namespace Scoped

/-- A check that looks up no name. -/
theorem of_silent {outcome : Except TypingError α}
    (hsilent : ∀ name, outcome ≠ .error (.unbound name)) : Scoped context [] outcome where
  bound := fun _ _ => rfl
  unbound := fun name houtcome => absurd houtcome (hsilent name)

theorem ok (a : α) : Scoped context [] (.ok a) :=
  of_silent nofun

/-- One check after another. The second one takes place only if the first one has succeeded. -/
theorem bind {x : Except TypingError α} {f : α → Except TypingError β}
    (hx : Scoped context names x) (hf : ∀ a, Scoped context more (f a)) :
    Scoped context (names ++ more) (x >>= f) := by
  cases x with
  | error error =>
      refine ⟨nofun, ?_⟩
      intro name herror
      obtain rfl := Except.error.inj herror
      rw [Context.firstUnbound_append, hx.unbound name rfl, Option.some_or]
  | ok a =>
      rw [ok_bind]
      have hbound := hx.bound a rfl
      constructor
      · intro b hok
        rw [Context.firstUnbound_append, hbound, Option.none_or, (hf a).bound b hok]
      · intro name herror
        rw [Context.firstUnbound_append, hbound, Option.none_or, (hf a).unbound name herror]

theorem bind_silent {x : Except TypingError α} {f : α → Except TypingError β}
    (hx : Scoped context names x) (hf : ∀ a, Scoped context [] (f a)) :
    Scoped context names (x >>= f) := by
  have hbind := hx.bind hf
  rwa [List.append_nil] at hbind

theorem under_binder {binder : String} {p : Proposition} {outcome : Except TypingError α}
    (houtcome : Scoped (context.extend binder p) names outcome) :
    Scoped context (names.filter (· ≠ binder)) outcome where
  bound := by
    rw [← Context.firstUnbound_extend context binder p]
    exact houtcome.bound
  unbound := by
    rw [← Context.firstUnbound_extend context binder p]
    exact houtcome.unbound

theorem asImplication (t : Term) (p : Proposition) : Scoped context [] (t.asImplication p) :=
  of_silent (by cases p <;> nofun)

theorem asConjunction (t : Term) (p : Proposition) : Scoped context [] (t.asConjunction p) :=
  of_silent (by cases p <;> nofun)

theorem asDisjunction (t : Term) (p : Proposition) : Scoped context [] (t.asDisjunction p) :=
  of_silent (by cases p <;> nofun)

theorem asFalsity (t : Term) (p : Proposition) : Scoped context [] (t.asFalsity p) :=
  of_silent (by cases p <;> nofun)

theorem agree (t : Term) (found expected : Proposition) :
    Scoped context [] (t.agree found expected) := by
  unfold Term.agree
  split
  next => exact ok ()
  next => exact of_silent nofun

theorem join (left right : Proposition) : Scoped context [] (Term.join left right) := by
  unfold Term.join
  split
  next => exact ok left
  next => exact of_silent nofun

theorem lookup (context : Context) (name : String) :
    Scoped context [name] (context.lookup name) where
  bound := by
    intro p hok
    have hbound := (context.contains_iff_lookup_ok name).mpr ⟨p, hok⟩
    simp [Context.firstUnbound, hbound]
  unbound := by
    intro other herror
    obtain ⟨hunbound, heq⟩ := (context.lookup_eq_error_iff name _).mp herror
    obtain rfl := TypingError.unbound.inj heq
    simp [Context.firstUnbound, hunbound]

end Scoped

end

/-! ## The checker -/

/-- The checker looks up the free variables of a term, from left to right. -/
theorem Term.scoped_infer (context : Context) (term : Term) :
    Scoped context term.freeVariables (term.infer context) := by
  -- Each rule chains its checks in the order in which its free variables are listed.
  induction term generalizing context with
  | var name => exact .lookup context name
  | lam name domain body ih => exact (ih _).under_binder.bind_silent fun p => .ok _
  | app f x ihf ihx =>
      refine (ihf context).bind fun p => (Scoped.asImplication f p).bind fun (a, b) => ?_
      exact (ihx context).bind_silent fun q => (Scoped.agree x q a).bind_silent fun _ => .ok b
  | pair l r ihl ihr =>
      exact (ihl context).bind fun a => (ihr context).bind_silent fun b => .ok _
  | fst t ih =>
      exact (ih context).bind_silent fun p =>
        (Scoped.asConjunction t p).bind_silent fun (a, b) => .ok a
  | snd t ih =>
      exact (ih context).bind_silent fun p =>
        (Scoped.asConjunction t p).bind_silent fun (a, b) => .ok b
  | inl t other ih => exact (ih context).bind_silent fun a => .ok _
  | inr other t ih => exact (ih context).bind_silent fun b => .ok _
  | cases t x u y v iht ihu ihv =>
      refine (iht context).bind fun p => (Scoped.asDisjunction t p).bind fun (a, b) => ?_
      -- Each branch is checked below its own binder.
      exact (ihu _).under_binder.bind fun left => (ihv _).under_binder.bind_silent fun right =>
        .join left right
  | unit => exact .ok _
  | absurd t target ih =>
      exact (ih context).bind_silent fun p =>
        (Scoped.asFalsity t p).bind_silent fun _ => .ok target

/-- Every name that a typed term leaves to its context is bound there. -/
theorem Typing.contains_of_mem_freeVariables {context : Context} {term : Term} {p : Proposition}
    (htyping : Typing context term p) :
    ∀ name ∈ term.freeVariables, context.contains name = true :=
  Context.firstUnbound_eq_none_iff.mp
    ((Term.scoped_infer context term).bound p (Term.infer_of_typing htyping))

namespace TypingError

theorem eq_unbound_of_kind {error : TypingError} (hkind : error.kind = .unboundVariable) :
    ∃ name, error = .unbound name := by
  cases error with
  | unbound name => exact ⟨name, rfl⟩
  | wrongShape | branchesDisagree | mismatch => cases hkind

theorem kind_cases (error : TypingError) :
    error.kind = .unboundVariable ∨ error.kind = .shapeMismatch ∨ error.kind = .typeMismatch := by
  cases error with
  | unbound => exact Or.inl rfl
  | wrongShape => exact Or.inr (Or.inl rfl)
  | branchesDisagree | mismatch => exact Or.inr (Or.inr rfl)

end TypingError

namespace Term

/-- A term that proves something has all of its free variables bound. If the checker reports an
unbound variable, the name that it reports is a free variable of the term that is not bound, namely
the first one from left to right. So a term whose free variables are all bound can fail only because
a proposition has the wrong shape or is the wrong one, and there are no other faults. -/
theorem checker_respects_scope (context : Context) (term : Term) :
    (∀ p, term.infer context = .ok p →
      ∀ name ∈ term.freeVariables, context.contains name = true) ∧
    (∀ error, term.infer context = .error error → error.kind = .unboundVariable →
      ∃ name, error.message = "Unbound variable: " ++ name ∧ name ∈ term.freeVariables ∧
        context.contains name = false ∧
        context.firstUnbound term.freeVariables = some name) ∧
    (∀ error, term.infer context = .error error →
      (∀ name ∈ term.freeVariables, context.contains name = true) →
      error.kind = .shapeMismatch ∨ error.kind = .typeMismatch) ∧
    ∀ error, term.infer context = .error error →
      error.kind = .unboundVariable ∨ error.kind = .shapeMismatch ∨
        error.kind = .typeMismatch := by
  have hscoped := scoped_infer context term
  refine ⟨?_, ?_, ?_, fun error _ => error.kind_cases⟩
  · intro p hinfer
    exact Context.firstUnbound_eq_none_iff.mp (hscoped.bound p hinfer)
  · intro error hinfer hkind
    obtain ⟨name, rfl⟩ := TypingError.eq_unbound_of_kind hkind
    have hfirst := hscoped.unbound name hinfer
    obtain ⟨hmem, hmissing⟩ := Context.mem_of_firstUnbound hfirst
    exact ⟨name, rfl, hmem, hmissing, hfirst⟩
  · intro error hinfer hall
    refine error.kind_cases.resolve_left fun hkind => ?_
    obtain ⟨name, rfl⟩ := TypingError.eq_unbound_of_kind hkind
    have hfirst := hscoped.unbound name hinfer
    rw [Context.firstUnbound_eq_none_iff.mpr hall] at hfirst
    contradiction

/-- A case distinction whose left branch binds `x` and whose right branch leaves `x` to the context.
Whether it is bound there, not at all, or to a proposition that does not fit makes all the
difference. -/
theorem checker_respects_scope_captured :
    (Term.cases (.var "s") "x" (.var "x") "y" (.var "x")).freeVariables = ["s", "x"] ∧
    (Term.cases (.var "s") "x" (.var "x") "y" (.var "x")).infer
        (.ofList [("s", .or (.atom "A") .truth), ("x", .atom "A")]) = .ok (.atom "A") ∧
    (Context.ofList [("s", .or (.atom "A") .truth), ("x", .atom "A")]).contains "x" = true ∧
    (Term.cases (.var "s") "x" (.var "x") "y" (.var "x")).infer
        (.ofList [("s", .or (.atom "A") .truth)]) = .error (.unbound "x") ∧
    (∃ name, TypingError.message (.unbound "x") = "Unbound variable: " ++ name ∧
      name ∈ (Term.cases (.var "s") "x" (.var "x") "y" (.var "x")).freeVariables ∧
      (Context.ofList [("s", .or (.atom "A") .truth)]).contains name = false) ∧
    (Term.cases (.var "s") "x" (.var "x") "y" (.var "x")).infer
        (.ofList [("x", .truth), ("s", .or (.atom "A") .truth)]) =
      .error (.branchesDisagree (.atom "A") .truth) ∧
    (TypingError.kind (.branchesDisagree (.atom "A") .truth) = .shapeMismatch ∨
      TypingError.kind (.branchesDisagree (.atom "A") .truth) = .typeMismatch) := by
  have hproves : (Term.cases (.var "s") "x" (.var "x") "y" (.var "x")).infer
      (.ofList [("s", .or (.atom "A") .truth), ("x", .atom "A")]) = .ok (.atom "A") := rfl
  have hmissing : (Term.cases (.var "s") "x" (.var "x") "y" (.var "x")).infer
      (.ofList [("s", .or (.atom "A") .truth)]) = .error (.unbound "x") := rfl
  have hdisagree : (Term.cases (.var "s") "x" (.var "x") "y" (.var "x")).infer
      (.ofList [("x", .truth), ("s", .or (.atom "A") .truth)]) =
      .error (.branchesDisagree (.atom "A") .truth) := rfl
  obtain ⟨name, hmessage, hfree, hunbound, -⟩ :=
    (checker_respects_scope _ _).2.1 _ hmissing rfl
  refine ⟨rfl, hproves, (checker_respects_scope _ _).1 _ hproves "x" (by decide), hmissing,
    ⟨name, hmessage, hfree, hunbound⟩, hdisagree, ?_⟩
  exact (checker_respects_scope _ _).2.2.1 _ hdisagree (by decide)

end Term

end Sequitur
