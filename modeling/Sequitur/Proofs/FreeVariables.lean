import Sequitur.Proofs.Typing

/-! # Free variables

The checker looks names up in its context, and the only names that reach the
context from inside a term are those that no binder of the term holds. So what
a term proves, and how it fails, depends on the meaning of its free variables
and on nothing else in the context. Hypotheses that the term does not mention
can come and go, neighbours with different names can change places, and a
hidden hypothesis can be dropped.
-/

namespace Sequitur

/-- The names that a term leaves to its context, from left to right. -/
def Term.freeVariables : Term → List String
  | .var name => [name]
  | .lam name _ body => body.freeVariables.filter (· ≠ name)
  | .app f x => f.freeVariables ++ x.freeVariables
  | .pair l r => l.freeVariables ++ r.freeVariables
  | .fst t => t.freeVariables
  | .snd t => t.freeVariables
  | .inl t _ => t.freeVariables
  | .inr _ t => t.freeVariables
  | .cases t x u y v =>
      t.freeVariables ++ (u.freeVariables.filter (· ≠ x) ++ v.freeVariables.filter (· ≠ y))
  | .unit => []
  | .absurd t _ => t.freeVariables

namespace Context

/-- Two contexts in which each of the given names has the same newest binding, or none. -/
def AgreeOn (names : List String) (c d : Context) : Prop :=
  ∀ name ∈ names, c.find? name = d.find? name

theorem agreeOn_append {names others : List String} {c d : Context} :
    AgreeOn (names ++ others) c d ↔ AgreeOn names c d ∧ AgreeOn others c d :=
  List.forall_mem_append

/-- A binder settles its own name, so that only the other names have to agree outside. -/
theorem AgreeOn.extend {names : List String} {c d : Context} {name : String}
    (hagree : AgreeOn (names.filter (· ≠ name)) c d) (p : Proposition) :
    AgreeOn names (c.extend name p) (d.extend name p) := by
  intro other hother
  rw [find?_extend, find?_extend]
  split
  next => rfl
  next hne =>
    apply hagree
    simpa using ⟨hother, hne⟩

/-- Contexts agree on a name that both lack, and on one that both look up with the same result. -/
theorem find?_eq_of_same {c d : Context} {name : String}
    (hsame : (c.contains name = false ∧ d.contains name = false) ∨
      ∃ p, c.lookup name = .ok p ∧ d.lookup name = .ok p) : c.find? name = d.find? name := by
  rcases hsame with ⟨hc, hd⟩ | ⟨p, hc, hd⟩
  · rw [contains_eq_isSome, Option.isSome_eq_false_iff, Option.isNone_iff_eq_none] at hc hd
    rw [hc, hd]
  · rw [Term.lookup_eq_ok, ← find?_eq_some_iff] at hc hd
    rw [hc, hd]

theorem find?_append (newer older : List (String × Proposition)) (name : String) :
    (Context.mk (newer ++ older)).find? name =
      ((Context.mk newer).find? name).or ((Context.mk older).find? name) :=
  List.lookup_append

end Context

namespace Term

/-- What a term proves, or how it fails to prove anything, is settled by the meaning of its free
variables. -/
theorem infer_eq_of_agreeOn {term : Term} {c d : Context}
    (hagree : c.AgreeOn term.freeVariables d) : term.infer c = term.infer d := by
  induction term generalizing c d with
  | var name =>
      have hfind : c.find? name = d.find? name := hagree name (List.mem_singleton_self name)
      rw [infer, infer, Context.lookup, Context.lookup, hfind]
  | lam name domain body ih => rw [infer, infer, ih (hagree.extend domain)]
  | app f x ihf ihx =>
      obtain ⟨hf, hx⟩ := Context.agreeOn_append.mp hagree
      rw [infer, infer, ihf hf, ihx hx]
  | pair l r ihl ihr =>
      obtain ⟨hl, hr⟩ := Context.agreeOn_append.mp hagree
      rw [infer, infer, ihl hl, ihr hr]
  | fst t ih => rw [infer, infer, ih hagree]
  | snd t ih => rw [infer, infer, ih hagree]
  | inl t other ih => rw [infer, infer, ih hagree]
  | inr other t ih => rw [infer, infer, ih hagree]
  | cases t x u y v iht ihu ihv =>
      obtain ⟨ht, hbranches⟩ := Context.agreeOn_append.mp hagree
      obtain ⟨hu, hv⟩ := Context.agreeOn_append.mp hbranches
      -- The branches are checked under whatever the sides of the disjunction are.
      have hleft : ∀ a, u.infer (c.extend x a) = u.infer (d.extend x a) :=
        fun a => ihu (hu.extend a)
      have hright : ∀ b, v.infer (c.extend y b) = v.infer (d.extend y b) :=
        fun b => ihv (hv.extend b)
      simp only [infer, iht ht, hleft, hright]
  | unit => rfl
  | absurd t target ih => rw [infer, infer, ih hagree]

/-- A hypothesis that a term does not mention, or that a newer one of the same name hides, makes no
difference wherever it stands. -/
theorem infer_insert {term : Term} {name : String} {newer : List (String × Proposition)}
    (hunseen : name ∉ term.freeVariables ∨ (Context.mk newer).contains name = true)
    (older : List (String × Proposition)) (p : Proposition) :
    term.infer ⟨newer ++ (name, p) :: older⟩ = term.infer ⟨newer ++ older⟩ := by
  apply infer_eq_of_agreeOn
  intro other hother
  rw [Context.find?_append, Context.find?_append]
  by_cases heq : other = name
  · subst heq
    have hhidden := hunseen.resolve_left (not_not_intro hother)
    rw [Context.contains_eq_isSome, Option.isSome_iff_exists] at hhidden
    obtain ⟨q, hq⟩ := hhidden
    rw [hq, Option.some_or, Option.some_or]
  · have hfind : (Context.mk ((name, p) :: older)).find? other = (Context.mk older).find? other :=
      (Context.find?_extend ⟨older⟩ name other p).trans (if_neg heq)
    rw [hfind]

/-- Neighbours with different names can change places. -/
theorem infer_swap (term : Term) {x y : String} (hne : x ≠ y)
    (newer older : List (String × Proposition)) (p q : Proposition) :
    term.infer ⟨newer ++ (x, p) :: (y, q) :: older⟩ =
      term.infer ⟨newer ++ (y, q) :: (x, p) :: older⟩ := by
  apply infer_eq_of_agreeOn
  intro other hother
  rw [Context.find?_append, Context.find?_append]
  congr 1
  change ((Context.extend ⟨older⟩ y q).extend x p).find? other =
    ((Context.extend ⟨older⟩ x p).extend y q).find? other
  simp only [Context.find?_extend]
  by_cases hx : other = x
  · have hy : other ≠ y := fun heq => hne (hx.symm.trans heq)
    rw [if_pos hx, if_neg hy, if_pos hx]
  · rw [if_neg hx, if_neg hx]

/-- Inference looks at the free variables of a term and at nothing else. In two contexts that both
lack a free variable, or both bind it to the same proposition, for each of them, a term proves the
same proposition or fails with the same error. So it does not matter whether a hypothesis stands in
the context that the term does not mention or that is hidden, nor in which order neighbours with
different names stand. -/
theorem inference_sees_free_variables (term : Term) :
    (∀ c d : Context,
      (∀ name ∈ term.freeVariables, (c.contains name = false ∧ d.contains name = false) ∨
        ∃ p, c.lookup name = .ok p ∧ d.lookup name = .ok p) →
      term.infer c = term.infer d) ∧
    (∀ (newer older : List (String × Proposition)) (name : String) (p : Proposition),
      name ∉ term.freeVariables ∨ (Context.mk newer).contains name = true →
      term.infer ⟨newer ++ (name, p) :: older⟩ = term.infer ⟨newer ++ older⟩) ∧
    ∀ (newer older : List (String × Proposition)) (x y : String) (p q : Proposition), x ≠ y →
      term.infer ⟨newer ++ (x, p) :: (y, q) :: older⟩ =
        term.infer ⟨newer ++ (y, q) :: (x, p) :: older⟩ := by
  refine ⟨?_, ?_, ?_⟩
  · intro c d hsame
    apply infer_eq_of_agreeOn
    intro name hname
    exact Context.find?_eq_of_same (hsame name hname)
  · intro newer older name p hunseen
    exact infer_insert hunseen older p
  · intro newer older x y p q hne
    exact infer_swap term hne newer older p q

/-- A case distinction with a branch that captures `f` and one that does not, under contexts of
different lengths and orders, in one of which an older `f` is hidden. An unbound argument of `f` is
found out in both. -/
theorem inference_sees_free_variables_captured :
    (Term.cases (.var "s") "f" (.var "f") "y" (.app (.var "f") (.var "y"))).freeVariables =
      ["s", "f"] ∧
    (Term.cases (.var "s") "f" (.var "f") "y" (.app (.var "f") (.var "y"))).infer
        (.ofList [("f", .truth), ("s", .or (.atom "A") (.atom "A")),
          ("f", .implies (.atom "A") (.atom "A"))]) =
      (Term.cases (.var "s") "f" (.var "f") "y" (.app (.var "f") (.var "y"))).infer
        (.ofList [("f", .implies (.atom "A") (.atom "A")), ("s", .or (.atom "A") (.atom "A"))]) ∧
    (Term.cases (.var "s") "f" (.var "f") "y" (.app (.var "f") (.var "y"))).infer
        (.ofList [("f", .implies (.atom "A") (.atom "A")), ("s", .or (.atom "A") (.atom "A"))]) =
      .ok (.atom "A") ∧
    (Term.app (.var "f") (.var "y")).infer (.ofList [("f", .implies .truth .truth)]) =
      (Term.app (.var "f") (.var "y")).infer
        (.ofList [("x", .falsity), ("f", .implies .truth .truth)]) ∧
    (Term.app (.var "f") (.var "y")).infer (.ofList [("f", .implies .truth .truth)]) =
      .error (.unbound "y") := by
  refine ⟨rfl, (inference_sees_free_variables _).1 _ _ ?_, rfl,
    (inference_sees_free_variables _).1 _ _ ?_, rfl⟩
  · intro name hname
    rcases List.mem_pair.mp hname with rfl | rfl
    · exact Or.inr ⟨_, rfl, rfl⟩
    · exact Or.inr ⟨_, rfl, rfl⟩
  · intro name hname
    rcases List.mem_pair.mp hname with rfl | rfl
    · exact Or.inr ⟨_, rfl, rfl⟩
    · exact Or.inl ⟨rfl, rfl⟩

end Term

end Sequitur
