import Sequitur.Proofs.NaturalDeduction
import Sequitur.Proofs.Reading

/-! # Subformulas

Tactics take propositions apart and never put any together: an introduction
moves one part of the goal into the context and leaves the other, and an
elimination goes on with a part of a hypothesis. So the sequents of a run are
made of parts of the sequent that it started from, however goals and
hypotheses change places on the way. Contexts only grow, by hypotheses that
can be referred to.
-/

namespace Sequitur

namespace Proposition

/-- A proposition and its parts, the whole in front of what it is made of. -/
def subformulas : Proposition → List Proposition
  | .atom name => [.atom name]
  | .implies a b => .implies a b :: (a.subformulas ++ b.subformulas)
  | .and a b => .and a b :: (a.subformulas ++ b.subformulas)
  | .or a b => .or a b :: (a.subformulas ++ b.subformulas)
  | .truth => [.truth]
  | .falsity => [.falsity]

theorem mem_subformulas_self (p : Proposition) : p ∈ p.subformulas := by
  cases p <;> exact List.mem_cons_self

theorem antecedent_mem_subformulas (a b : Proposition) : a ∈ (implies a b).subformulas :=
  List.mem_cons_of_mem _ (List.mem_append_left _ a.mem_subformulas_self)

theorem consequent_mem_subformulas (a b : Proposition) : b ∈ (implies a b).subformulas :=
  List.mem_cons_of_mem _ (List.mem_append_right _ b.mem_subformulas_self)

/-- Parts of parts are parts. -/
theorem mem_subformulas_trans {p q r : Proposition} (hpq : p ∈ q.subformulas)
    (hqr : q ∈ r.subformulas) : p ∈ r.subformulas := by
  induction r with
  | atom _ | truth | falsity => exact List.mem_singleton.mp hqr ▸ hpq
  | implies a b iha ihb | and a b iha ihb | or a b iha ihb =>
      rcases List.mem_cons.mp hqr with rfl | hparts
      · exact hpq
      · have hparts := (List.mem_append.mp hparts).imp iha ihb
        exact List.mem_cons_of_mem _ (List.mem_append.mpr hparts)

end Proposition

namespace Sequent

/-- The goal and the hypotheses. -/
def propositions (sequent : Sequent) : List Proposition :=
  sequent.goal :: sequent.context.hypotheses

/-- A sequent that is made of parts of another one, under a context to which hypotheses with
identifiers as names were added. -/
structure ArisesFrom (current start : Sequent) : Prop where
  parts : ∀ p ∈ current.propositions, ∃ whole ∈ start.propositions, p ∈ whole.subformulas
  context : ∃ newer, current.context.bindings = newer ++ start.context.bindings ∧
    ∀ binding ∈ newer, isIdentifier binding.1 = true

theorem ArisesFrom.refl (sequent : Sequent) : sequent.ArisesFrom sequent where
  parts := fun p hp => ⟨p, hp, p.mem_subformulas_self⟩
  context := ⟨[], rfl, List.forall_mem_nil _⟩

theorem ArisesFrom.trans {last middle first : Sequent} (hlast : last.ArisesFrom middle)
    (hmiddle : middle.ArisesFrom first) : last.ArisesFrom first where
  parts := by
    intro p hp
    obtain ⟨q, hq, hpq⟩ := hlast.parts p hp
    obtain ⟨r, hr, hqr⟩ := hmiddle.parts q hq
    exact ⟨r, hr, Proposition.mem_subformulas_trans hpq hqr⟩
  context := by
    obtain ⟨newest, hlast, hnewest⟩ := hlast.context
    obtain ⟨newer, hmiddle, hnewer⟩ := hmiddle.context
    refine ⟨newest ++ newer, ?_, List.forall_mem_append.mpr ⟨hnewest, hnewer⟩⟩
    rw [hlast, hmiddle, List.append_assoc]

/-- A subgoal arises from the goal for which it is opened. -/
theorem Admits.arisesFrom {sequent sub : Sequent} {frame : Frame}
    (hstep : sequent.Admits (.subgoal sub frame)) : sub.ArisesFrom sequent := by
  have hold : ∀ p ∈ sequent.context.hypotheses,
      ∃ whole ∈ sequent.propositions, p ∈ whole.subformulas := by
    intro p hp
    exact ⟨p, List.mem_cons_of_mem _ hp, p.mem_subformulas_self⟩
  cases hstep with
  | @intro name a b hgoal hname =>
      have hwhole : .implies a b ∈ sequent.propositions := hgoal ▸ List.mem_cons_self
      refine ⟨?_, [(name, a)], rfl, List.forall_mem_singleton.mpr hname⟩
      refine List.forall_mem_cons.mpr ⟨?_, List.forall_mem_cons.mpr ⟨?_, hold⟩⟩
      · exact ⟨_, hwhole, Proposition.consequent_mem_subformulas a b⟩
      · exact ⟨_, hwhole, Proposition.antecedent_mem_subformulas a b⟩
  | @elim name a hbinds =>
      have hwhole : .implies a sequent.goal ∈ sequent.propositions :=
        List.mem_cons_of_mem _ hbinds.mem_hypotheses
      refine ⟨?_, [], rfl, List.forall_mem_nil _⟩
      refine List.forall_mem_cons.mpr ⟨?_, hold⟩
      exact ⟨_, hwhole, Proposition.antecedent_mem_subformulas a sequent.goal⟩

end Sequent

namespace Elaboration

/-- What holds of the sequent that a run starts from, and of every subgoal if it holds of the goal,
holds of every sequent that is worked on. -/
theorem sequents_induction {motive : Sequent → Prop}
    (hsubgoal : ∀ {sequent sub frame}, sequent.Admits (.subgoal sub frame) →
      motive sequent → motive sub)
    {sequent : Sequent} (hstart : motive sequent) (lines : List String) :
    ∀ current ∈ (run sequent lines).sequents, motive current := by
  induction lines generalizing sequent with
  | nil => exact List.forall_mem_singleton.mpr hstart
  | cons line rest ih =>
      rcases hstep : sequent.performLine (Text.chomp line) with error | (term | ⟨sub, frame⟩)
      · rw [run_of_error hstep, sequents_after]
        exact List.forall_mem_cons.mpr ⟨hstart, ih hstart⟩
      · rw [run_of_closed hstep]
        exact List.forall_mem_singleton.mpr hstart
      · have hsub : motive sub := hsubgoal (Sequent.admits_of_performLine hstep) hstart
        rw [run_of_subgoal hstep, sequents_after, sequents_within]
        exact List.forall_mem_cons.mpr ⟨hstart, ih hsub⟩

/-- Every sequent that a run works on arises from the one that it started from. -/
theorem arisesFrom_of_mem_sequents {sequent current : Sequent} {lines : List String}
    (hcurrent : current ∈ (run sequent lines).sequents) : current.ArisesFrom sequent :=
  sequents_induction (fun hstep harises => hstep.arisesFrom.trans harises)
    (Sequent.ArisesFrom.refl sequent) lines current hcurrent

/-- Whatever lines are given, every sequent that is worked on is made of parts of the one at the
start: its goal and each of its hypotheses is a subformula of the first goal or of a hypothesis that
was there in the beginning. Its context is the first one, unchanged, with newer hypotheses in front
of it, and these are named by identifiers. -/
theorem sequents_made_of_subformulas (context : Context) (goal : Proposition)
    (lines : List String) :
    ∀ sequent ∈ (run ⟨context, goal⟩ lines).sequents,
      (∃ whole ∈ goal :: context.hypotheses, sequent.goal ∈ whole.subformulas) ∧
      (∀ binding ∈ sequent.context.bindings,
        ∃ whole ∈ goal :: context.hypotheses, binding.2 ∈ whole.subformulas) ∧
      ∃ newer : List (String × Proposition),
        sequent.context.bindings = newer ++ context.bindings ∧
          ∀ binding ∈ newer, isIdentifier binding.1 = true := by
  intro sequent hsequent
  have harises := arisesFrom_of_mem_sequents hsequent
  obtain ⟨hgoal, hhypotheses⟩ := List.forall_mem_cons.mp harises.parts
  refine ⟨hgoal, ?_, harises.context⟩
  intro binding hbinding
  exact hhypotheses _ (List.mem_map_of_mem hbinding)

/-- A run that eliminates one hypothesis, introduces another one under the same name, and is left
with a goal that came from within the first hypothesis. -/
theorem sequents_made_of_subformulas_hidden :
    (⟨.ofList [("f g", .truth),
          ("f", .implies (.implies (.atom "A") (.atom "B")) (.atom "C")), ("f", .atom "A")],
        .atom "B"⟩ : Sequent) ∈
      (run ⟨.ofList [("f g", .truth),
          ("f", .implies (.implies (.atom "A") (.atom "B")) (.atom "C"))], .atom "C"⟩
        ["elim f", "elim f", "intro f g", "intro f"]).sequents ∧
    (∃ whole ∈ [.atom "C", .implies (.implies (.atom "A") (.atom "B")) (.atom "C"), .truth],
      .atom "B" ∈ Proposition.subformulas whole) ∧
    ∃ newer : List (String × Proposition),
      [("f", .atom "A"), ("f", .implies (.implies (.atom "A") (.atom "B")) (.atom "C")),
        ("f g", .truth)] =
          newer ++ [("f", .implies (.implies (.atom "A") (.atom "B")) (.atom "C")),
            ("f g", .truth)] ∧
        ∀ binding ∈ newer, isIdentifier binding.1 = true := by
  have hmem : (⟨.ofList [("f g", .truth),
          ("f", .implies (.implies (.atom "A") (.atom "B")) (.atom "C")), ("f", .atom "A")],
        .atom "B"⟩ : Sequent) ∈
      (run ⟨.ofList [("f g", .truth),
          ("f", .implies (.implies (.atom "A") (.atom "B")) (.atom "C"))], .atom "C"⟩
        ["elim f", "elim f", "intro f g", "intro f"]).sequents := by
    decide +kernel
  obtain ⟨hgoal, -, hcontext⟩ := sequents_made_of_subformulas _ _ _ _ hmem
  exact ⟨hmem, hgoal, hcontext⟩

end Elaboration

end Sequitur
