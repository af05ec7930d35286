import Mathlib
import Sequitur.Term
import Sequitur.Token

/-! # Names in propositions and terms

Propositions and terms hold names of any spelling. They can be written down
only if each of their names is an identifier.
-/

namespace Sequitur

namespace Proposition

/-- The names of the atoms, from left to right. -/
def atoms : Proposition → List String
  | .atom name => [name]
  | .implies a b => a.atoms ++ b.atoms
  | .and a b => a.atoms ++ b.atoms
  | .or a b => a.atoms ++ b.atoms
  | .truth => []
  | .falsity => []

/-- Every atom is named by an identifier. -/
def Writable (p : Proposition) : Prop :=
  ∀ name ∈ p.atoms, isIdentifier name = true

instance (p : Proposition) : Decidable p.Writable :=
  inferInstanceAs (Decidable (∀ name ∈ p.atoms, isIdentifier name = true))

@[simp]
theorem writable_atom (name : String) :
    (Proposition.atom name).Writable ↔ isIdentifier name = true := by
  simp [Writable, atoms]

@[simp]
theorem writable_implies (a b : Proposition) :
    (Proposition.implies a b).Writable ↔ a.Writable ∧ b.Writable := by
  simp only [Writable, atoms, List.forall_mem_append]

@[simp]
theorem writable_and (a b : Proposition) :
    (Proposition.and a b).Writable ↔ a.Writable ∧ b.Writable := by
  simp only [Writable, atoms, List.forall_mem_append]

@[simp]
theorem writable_or (a b : Proposition) :
    (Proposition.or a b).Writable ↔ a.Writable ∧ b.Writable := by
  simp only [Writable, atoms, List.forall_mem_append]

@[simp]
theorem writable_truth : Proposition.truth.Writable := by
  simp [Writable, atoms]

@[simp]
theorem writable_falsity : Proposition.falsity.Writable := by
  simp [Writable, atoms]

end Proposition

namespace Term

/-- The names of variables, of binders and of the atoms in embedded propositions, from left to
right. -/
def names : Term → List String
  | .var name => [name]
  | .lam name domain body => name :: (domain.atoms ++ body.names)
  | .app f x => f.names ++ x.names
  | .pair l r => l.names ++ r.names
  | .fst t => t.names
  | .snd t => t.names
  | .inl t other => t.names ++ other.atoms
  | .inr other t => other.atoms ++ t.names
  | .cases t x u y v => t.names ++ x :: (u.names ++ y :: v.names)
  | .unit => []
  | .absurd t target => t.names ++ target.atoms

/-- Every name is an identifier. -/
def Writable (term : Term) : Prop :=
  ∀ name ∈ term.names, isIdentifier name = true

instance (term : Term) : Decidable term.Writable :=
  inferInstanceAs (Decidable (∀ name ∈ term.names, isIdentifier name = true))

@[simp]
theorem writable_var (name : String) : (Term.var name).Writable ↔ isIdentifier name = true := by
  simp [Writable, names]

@[simp]
theorem writable_lam (name : String) (domain : Proposition) (body : Term) :
    (Term.lam name domain body).Writable ↔
      isIdentifier name = true ∧ domain.Writable ∧ body.Writable := by
  simp only [Writable, names, Proposition.Writable, List.forall_mem_cons, List.forall_mem_append]

@[simp]
theorem writable_app (f x : Term) : (Term.app f x).Writable ↔ f.Writable ∧ x.Writable := by
  simp only [Writable, names, List.forall_mem_append]

@[simp]
theorem writable_pair (l r : Term) : (Term.pair l r).Writable ↔ l.Writable ∧ r.Writable := by
  simp only [Writable, names, List.forall_mem_append]

@[simp]
theorem writable_fst (t : Term) : (Term.fst t).Writable ↔ t.Writable :=
  Iff.rfl

@[simp]
theorem writable_snd (t : Term) : (Term.snd t).Writable ↔ t.Writable :=
  Iff.rfl

@[simp]
theorem writable_inl (t : Term) (other : Proposition) :
    (Term.inl t other).Writable ↔ t.Writable ∧ other.Writable := by
  simp only [Writable, names, Proposition.Writable, List.forall_mem_append]

@[simp]
theorem writable_inr (other : Proposition) (t : Term) :
    (Term.inr other t).Writable ↔ other.Writable ∧ t.Writable := by
  simp only [Writable, names, Proposition.Writable, List.forall_mem_append]

@[simp]
theorem writable_cases (t : Term) (x : String) (u : Term) (y : String) (v : Term) :
    (Term.cases t x u y v).Writable ↔
      t.Writable ∧ isIdentifier x = true ∧ u.Writable ∧ isIdentifier y = true ∧ v.Writable := by
  simp only [Writable, names, List.forall_mem_cons, List.forall_mem_append]

@[simp]
theorem writable_unit : Term.unit.Writable := by
  simp [Writable, names]

@[simp]
theorem writable_absurd (t : Term) (target : Proposition) :
    (Term.absurd t target).Writable ↔ t.Writable ∧ target.Writable := by
  simp only [Writable, names, Proposition.Writable, List.forall_mem_append]

end Term

end Sequitur
