import Sequitur.Proofs.Commands
import Sequitur.Proofs.Kripke
import Sequitur.Proofs.Scoping

/-! # Introducing a hypothesis

An introduction puts a new hypothesis in front of the others. If its name is not
bound yet, nothing is hidden, and every term that proved something before still
proves it, whatever names the binders inside the term have. So the subgoal can be
proved if and only if the goal can. A name that is bound already hides a
hypothesis, and with it the goal may become out of reach.
-/

namespace Sequitur

/-- A hypothesis under a fresh name takes nothing away, even if a binder inside the term has the
same name. -/
theorem Typing.extend_fresh {context : Context} {term : Term} {p : Proposition}
    (htyping : Typing context term p) {name : String} (hfresh : context.contains name = false)
    (q : Proposition) : Typing (context.extend name q) term p := by
  have hunseen : name ∉ term.freeVariables := by
    intro hname
    rw [htyping.contains_of_mem_freeVariables name hname] at hfresh
    contradiction
  have hinsert : term.infer (context.extend name q) = term.infer context :=
    @Term.infer_insert term name [] (Or.inl hunseen) context.bindings q
  apply Term.typing_of_infer
  rw [hinsert, Term.infer_of_typing htyping]

/-- A hypothesis that a newer one of its name hides proves nothing. -/
theorem Term.not_infer_atom_of_hidden (name atom : String) (p : Proposition) (term : Term) :
    term.infer ((Context.empty.extend name p).extend name .truth) ≠ .ok (.atom atom) := by
  intro hinfer
  have hhides : (Context.empty.extend name .truth).contains name = true :=
    Context.contains_extend_self _ _ _
  -- The hidden binding has to go first: a world that forces it may force the atom.
  have hdropped : term.infer (Context.empty.extend name .truth) = .ok (.atom atom) :=
    (infer_insert (Or.inr hhides) [] p).symm.trans hinfer
  have hforces : (KripkeModel.discovery atom).Forces false (.atom atom) := by
    apply KripkeModel.forces_of_infer _ hdropped
    intro binding hbinding
    rw [List.mem_singleton.mp hbinding]
    trivial
  rw [KripkeModel.discovery_forces_atom] at hforces
  exact Bool.false_ne_true hforces.2

namespace Sequent

/-- Introducing a hypothesis under a fresh name loses no provability: it opens a subgoal that some
term proves if and only if some term proves the implication. Under a name that is bound already,
whichever it is, provability can be lost. -/
theorem fresh_intro_keeps_provability (name : String) (hname : isIdentifier name = true) :
    (∀ (context : Context) (a b : Proposition), context.contains name = false →
      performLine ⟨context, .implies a b⟩ ("intro " ++ name) =
        .ok (.subgoal ⟨context.extend name a, b⟩ (.lam name a)) ∧
      ((∃ term : Term, term.infer (context.extend name a) = .ok b) ↔
        ∃ term : Term, term.infer context = .ok (.implies a b))) ∧
    (∃ (context : Context) (a b : Proposition), context.contains name = true ∧
      (∃ term : Term, term.infer context = .ok (.implies a b)) ∧
      ¬ ∃ term : Term, term.infer (context.extend name a) = .ok b) := by
  constructor
  · intro context a b hfresh
    refine ⟨performLine_intro_identifier rfl hname, ?_⟩
    simp only [Term.infer_eq_ok_iff]
    constructor
    · rintro ⟨term, htyping⟩
      exact ⟨.lam name a term, .lam htyping⟩
    · rintro ⟨term, htyping⟩
      -- The term is applied to the new hypothesis.
      exact ⟨.app term (.var name), .app (htyping.extend_fresh hfresh a) (.var (.newest _ _ _))⟩
  · -- The only hypothesis is the goal itself, and the introduction hides it.
    refine ⟨Context.empty.extend name (.implies .truth (.atom "A")), .truth, .atom "A",
      Context.contains_extend_self _ _ _, ?_, ?_⟩
    · exact ⟨.var name, Term.infer_of_typing (.var (.newest _ _ _))⟩
    · rintro ⟨term, hinfer⟩
      exact Term.not_infer_atom_of_hidden name "A" _ term hinfer

/-- Under the hypothesis `f`, whose proof of the goal has a binder called `x` itself, `x` is fresh:
introducing it leaves the subgoal within reach. -/
theorem fresh_intro_keeps_provability_applied :
    isIdentifier "x" = true ∧
    (Context.empty.extend "f" (.implies (.atom "A") (.atom "B"))).contains "x" = false ∧
    (Term.lam "x" (.atom "A") (.app (.var "f") (.var "x"))).infer
        (Context.empty.extend "f" (.implies (.atom "A") (.atom "B"))) =
      .ok (.implies (.atom "A") (.atom "B")) ∧
    performLine ⟨Context.empty.extend "f" (.implies (.atom "A") (.atom "B")),
        .implies (.atom "A") (.atom "B")⟩ ("intro " ++ "x") =
      .ok (.subgoal ⟨(Context.empty.extend "f" (.implies (.atom "A") (.atom "B"))).extend "x"
        (.atom "A"), .atom "B"⟩ (.lam "x" (.atom "A"))) ∧
    ∃ term : Term,
      term.infer ((Context.empty.extend "f" (.implies (.atom "A") (.atom "B"))).extend "x"
        (.atom "A")) = .ok (.atom "B") := by
  have hname : isIdentifier "x" = true := by decide +kernel
  have hfresh :
      (Context.empty.extend "f" (.implies (.atom "A") (.atom "B"))).contains "x" = false := by
    decide +kernel
  have hproof :
      (Term.lam "x" (.atom "A") (.app (.var "f") (.var "x"))).infer
          (Context.empty.extend "f" (.implies (.atom "A") (.atom "B"))) =
        .ok (.implies (.atom "A") (.atom "B")) := by
    decide +kernel
  have hkeeps := (fresh_intro_keeps_provability "x" hname).1 _ (.atom "A") (.atom "B") hfresh
  exact ⟨hname, hfresh, hproof, hkeeps.1, hkeeps.2.mpr ⟨_, hproof⟩⟩

end Sequent

end Sequitur
