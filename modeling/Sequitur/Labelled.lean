import Sequitur.Context
import Sequitur.Term
import Sequitur.Text.Quoted

/-! # Labelled form

The form in which diagnostics show a value: its head, and between
parentheses each part after its label. Names are quoted, so that the form
is unambiguous for every name.
-/

namespace Sequitur

/-- The labelled form of a proposition. -/
def Proposition.labelled : Proposition → String
  | .atom name => "Atom(name=" ++ Text.quote name ++ ")"
  | .implies a b => "Implies(antecedent=" ++ a.labelled ++ ", consequent=" ++ b.labelled ++ ")"
  | .and a b => "And(left=" ++ a.labelled ++ ", right=" ++ b.labelled ++ ")"
  | .or a b => "Or(left=" ++ a.labelled ++ ", right=" ++ b.labelled ++ ")"
  | .truth => "Truth()"
  | .falsity => "Falsity()"

/-- The labelled form of a term. -/
def Term.labelled : Term → String
  | .var name => "Var(name=" ++ Text.quote name ++ ")"
  | .lam name domain body =>
      "Abs(name=" ++ Text.quote name ++ ", domain=" ++ domain.labelled ++
        ", body=" ++ body.labelled ++ ")"
  | .app f x => "App(function=" ++ f.labelled ++ ", argument=" ++ x.labelled ++ ")"
  | .pair l r => "Pair(left=" ++ l.labelled ++ ", right=" ++ r.labelled ++ ")"
  | .fst t => "Fst(term=" ++ t.labelled ++ ")"
  | .snd t => "Snd(term=" ++ t.labelled ++ ")"
  | .inl t other => "Left(term=" ++ t.labelled ++ ", other=" ++ other.labelled ++ ")"
  | .inr other t => "Right(other=" ++ other.labelled ++ ", term=" ++ t.labelled ++ ")"
  | .cases t x u y v =>
      "Case(scrutinee=" ++ t.labelled ++ ", left_name=" ++ Text.quote x ++
        ", left_branch=" ++ u.labelled ++ ", right_name=" ++ Text.quote y ++
        ", right_branch=" ++ v.labelled ++ ")"
  | .unit => "UnitTerm()"
  | .absurd t target => "Absurd(term=" ++ t.labelled ++ ", target=" ++ target.labelled ++ ")"

/-- A group of items: a single item is followed by a comma, which tells it from parentheses. -/
def labelledGroup : List String → String
  | [item] => "(" ++ item ++ ",)"
  | items => "(" ++ ", ".intercalate items ++ ")"

/-- The labelled form of a context shows its bindings newest first. -/
def Context.labelled (context : Context) : String :=
  let items := context.bindings.map fun binding =>
    "(" ++ Text.quote binding.1 ++ ", " ++ binding.2.labelled ++ ")"
  "Context(bindings=" ++ labelledGroup items ++ ")"

end Sequitur
