import Sequitur.Proposition

/-! # Proof terms

Terms of the simply typed lambda calculus with products, sums, a unit and an
empty type. Binders carry names, and injections and the elimination of
falsity carry the proposition that their subterm does not determine.
-/

namespace Sequitur

/-- A proof term. Names are kept as they are written; two terms are equal only if their bound
names are. -/
inductive Term where
  | var (name : String)
  | lam (name : String) (domain : Proposition) (body : Term)
  | app (function argument : Term)
  | pair (left right : Term)
  | fst (term : Term)
  | snd (term : Term)
  | inl (term : Term) (other : Proposition)
  | inr (other : Proposition) (term : Term)
  | cases (scrutinee : Term) (leftName : String) (leftBranch : Term) (rightName : String)
      (rightBranch : Term)
  | unit
  | absurd (term : Term) (target : Proposition)
  deriving DecidableEq

end Sequitur
