import Sequitur.Proposition

/-! # Contexts and sequents

A context is a list of named hypotheses. A name may be bound more than once:
the newest binding hides the older ones, which stay in the context. A
sequent is a context with a goal to prove under it.
-/

namespace Sequitur

/-- Named hypotheses, the newest first. -/
structure Context where
  bindings : List (String × Proposition)
  deriving DecidableEq

namespace Context

/-- The context without hypotheses. -/
def empty : Context :=
  ⟨[]⟩

/-- Add a hypothesis, hiding older ones of the same name. -/
def extend (context : Context) (name : String) (p : Proposition) : Context :=
  ⟨(name, p) :: context.bindings⟩

/-- The context that binds the given pairs one after another, the first one oldest. -/
def ofList (pairs : List (String × Proposition)) : Context :=
  pairs.foldl (fun context pair => context.extend pair.1 pair.2) empty

/-- The bindings in the order in which they were added. -/
def toList (context : Context) : List (String × Proposition) :=
  context.bindings.reverse

/-- The number of bindings, hidden ones included. -/
def size (context : Context) : Nat :=
  context.bindings.length

/-- The proposition of the newest binding of a name. -/
def find? (context : Context) (name : String) : Option Proposition :=
  context.bindings.lookup name

/-- Whether a name is bound. -/
def contains (context : Context) (name : String) : Bool :=
  context.bindings.any fun binding => binding.1 == name

theorem contains_eq_isSome (context : Context) (name : String) :
    context.contains name = (context.find? name).isSome := by
  obtain ⟨bindings⟩ := context
  induction bindings with
  | nil => rfl
  | cons binding rest ih =>
      simp only [contains, find?] at ih ⊢
      rw [List.any_cons, ih, List.lookup_cons, BEq.comm (a := name)]
      cases binding.1 == name <;> rfl

end Context

/-- A goal under a context. -/
structure Sequent where
  context : Context
  goal : Proposition
  deriving DecidableEq

end Sequitur
