/-! # Propositions

The formulas of intuitionistic propositional logic. Negation is not a
connective of its own: it is implication of falsity.
-/

namespace Sequitur

/-- A formula over named atoms. -/
inductive Proposition where
  | atom (name : String)
  | implies (antecedent consequent : Proposition)
  | and (left right : Proposition)
  | or (left right : Proposition)
  | truth
  | falsity
  deriving DecidableEq

/-- The negation of a proposition: it implies falsity. -/
def Proposition.negation (p : Proposition) : Proposition :=
  .implies p .falsity

end Sequitur
