import Mathlib.Data.Bool.Basic
import Mathlib.Order.Monotone.Defs
import Sequitur.Proofs.NaturalDeduction
import Sequitur.Proofs.Session

/-! # Kripke semantics

Worlds are ordered by what is known at them. A proposition is forced at a
world if what is known there, and will stay known later, makes it true. What a
term proves is forced wherever its context is, so no session proves a
proposition that some world of some model does not force.
-/

namespace Sequitur

universe u

/-- The atoms that are known at each world. What is known at a world stays known at later ones. -/
structure KripkeModel (World : Type u) [Preorder World] where
  known : String → World → Prop
  known_mono : ∀ name, Monotone (known name)

namespace KripkeModel

variable {World : Type u} [Preorder World] (model : KripkeModel World)

/-- Truth of a proposition at a world. An implication looks at all later worlds. -/
def Forces : World → Proposition → Prop
  | world, .atom name => model.known name world
  | world, .implies a b => ∀ later, world ≤ later → Forces later a → Forces later b
  | world, .and a b => Forces world a ∧ Forces world b
  | world, .or a b => Forces world a ∨ Forces world b
  | _, .truth => True
  | _, .falsity => False

/-- What is forced at a world stays forced at later ones. -/
theorem forces_mono {world later : World} (hle : world ≤ later) {p : Proposition}
    (hforces : model.Forces world p) : model.Forces later p := by
  induction p with
  | atom name => exact model.known_mono name hle hforces
  | implies a b _ _ =>
      intro next hnext ha
      exact hforces next (le_trans hle hnext) ha
  | and a b iha ihb => exact ⟨iha hforces.1, ihb hforces.2⟩
  | or a b iha ihb => exact Or.imp iha ihb hforces
  | truth => trivial
  | falsity => exact hforces

/-- Every proposition of a list is forced at a world. -/
def ForcesAll (world : World) (hyps : List Proposition) : Prop :=
  ∀ p ∈ hyps, model.Forces world p

variable {model}

theorem ForcesAll.mono {world later : World} (hle : world ≤ later) {hyps : List Proposition}
    (hall : model.ForcesAll world hyps) : model.ForcesAll later hyps :=
  fun p hp => model.forces_mono hle (hall p hp)

theorem ForcesAll.cons {world : World} {p : Proposition} {hyps : List Proposition}
    (hp : model.Forces world p) (hall : model.ForcesAll world hyps) :
    model.ForcesAll world (p :: hyps) :=
  List.forall_mem_cons.mpr ⟨hp, hall⟩

end KripkeModel

/-- A deduction carries forcing from its hypotheses to its conclusion. -/
theorem Entails.forces {World : Type u} [Preorder World] {model : KripkeModel World}
    {hyps : List Proposition} {p : Proposition} (hentails : Entails hyps p) {world : World}
    (hall : model.ForcesAll world hyps) : model.Forces world p := by
  induction hentails generalizing world with
  | hypothesis hmem => exact hall _ hmem
  | impliesIntro _ ih =>
      intro later hle ha
      exact ih ((hall.mono hle).cons ha)
  | impliesElim _ _ ihab iha => exact ihab hall world (le_refl world) (iha hall)
  | andIntro _ _ iha ihb => exact ⟨iha hall, ihb hall⟩
  | andLeft _ ih => exact (ih hall).1
  | andRight _ ih => exact (ih hall).2
  | orLeft _ ih => exact Or.inl (ih hall)
  | orRight _ ih => exact Or.inr (ih hall)
  | orElim _ _ _ ihab iha ihb =>
      rcases ihab hall with ha | hb
      · exact iha (hall.cons ha)
      · exact ihb (hall.cons hb)
  | truthIntro => trivial
  | falsityElim _ ih => exact (ih hall).elim

namespace Proposition

/-- A proposition that is forced at every world of every model. -/
def Valid (p : Proposition) : Prop :=
  ∀ (World : Type u) [Preorder World] (model : KripkeModel World) (world : World),
    model.Forces world p

/-- Peirce's law, which holds classically but not at every world of every model. -/
def peirce (a b : Proposition) : Proposition :=
  .implies (.implies (.implies a b) a) a

end Proposition

/-! ## Countermodels -/

/-- Two worlds; at the earlier one nothing is known, at the later one exactly one atom is. -/
def KripkeModel.discovery (name : String) : KripkeModel Bool where
  known other world := other = name ∧ world = true
  known_mono := by
    intro other world later hle hknown
    exact ⟨hknown.1, Bool.eq_true_of_true_le (hknown.2 ▸ hle)⟩

/-- No atom but the discovered one is forced anywhere, and that one is not forced at first. -/
theorem KripkeModel.discovery_forces_atom (name other : String) (world : Bool) :
    (discovery name).Forces world (.atom other) ↔ other = name ∧ world = true :=
  Iff.rfl

namespace Proposition

theorem not_valid_falsity : ¬ Valid.{0} falsity := by
  intro hvalid
  exact hvalid Bool (.discovery "") false

theorem not_valid_atom (name : String) : ¬ Valid.{0} (atom name) := by
  intro hvalid
  have hforces := hvalid Bool (.discovery name) false
  rw [KripkeModel.discovery_forces_atom] at hforces
  exact Bool.false_ne_true hforces.2

/-- Nothing at the earlier world refutes the first atom, and nothing there establishes it. -/
theorem not_valid_peirce {a b : String} (hne : a ≠ b) :
    ¬ Valid.{0} (peirce (.atom a) (.atom b)) := by
  intro hvalid
  have hfirst : (KripkeModel.discovery a).Forces false (.atom a) := by
    apply hvalid Bool (.discovery a) false false (le_refl false)
    intro world _ himplies
    -- The implication fails at the later world, where only its antecedent is known.
    have hb := himplies true (Bool.le_true world) ⟨rfl, rfl⟩
    rw [KripkeModel.discovery_forces_atom] at hb
    exact absurd hb.1.symm hne
  rw [KripkeModel.discovery_forces_atom] at hfirst
  exact Bool.false_ne_true hfirst.2

end Proposition

/-! ## Soundness -/

/-- What a term proves is forced wherever every proposition of its context is. -/
theorem KripkeModel.forces_of_infer {World : Type u} [Preorder World]
    (model : KripkeModel World) {context : Context} {term : Term} {p : Proposition}
    (hinfer : term.infer context = .ok p) {world : World}
    (hall : ∀ binding ∈ context.bindings, model.Forces world binding.2) :
    model.Forces world p := by
  apply (Term.typing_of_infer hinfer).entails.forces
  intro q hq
  obtain ⟨binding, hbinding, rfl⟩ := List.mem_map.mp hq
  exact hall binding hbinding

theorem Session.valid_of_result {session : Session} {proof : Proof}
    (hresult : session.result = .ok proof) : Proposition.Valid.{u} proof.goal := by
  intro World _ model world
  apply (typing_of_result hresult).entails.forces
  intro q hq
  cases hq

/-- The checker is sound for Kripke semantics, and so is every session: the goal of a reported
proof is forced at every world, so it is not falsity, an atom, Peirce's law, or any other
proposition with a countermodel. -/
theorem kripke_soundness :
    (∀ (World : Type u) [Preorder World] (model : KripkeModel World) (context : Context)
      (term : Term) (p : Proposition), term.infer context = .ok p → ∀ world : World,
        (∀ binding ∈ context.bindings, model.Forces world binding.2) → model.Forces world p) ∧
    ∀ (lines : List String) (proof : Proof), (Session.run lines).result = .ok proof →
      (∀ (World : Type u) [Preorder World] (model : KripkeModel World) (world : World),
        model.Forces world proof.goal) ∧
      proof.goal ≠ .falsity ∧
      (∀ name, proof.goal ≠ .atom name) ∧
      (∀ a b, a ≠ b → proof.goal ≠ .peirce (.atom a) (.atom b)) ∧
      ∀ (p : Proposition) (World : Type u) [Preorder World] (model : KripkeModel World)
        (world : World), ¬ model.Forces world p → proof.goal ≠ p := by
  refine ⟨fun World _ model context term p hinfer world hall =>
    model.forces_of_infer hinfer hall, ?_⟩
  intro lines proof hresult
  have hvalid : Proposition.Valid.{0} proof.goal := Session.valid_of_result hresult
  refine ⟨Session.valid_of_result hresult, ?_, ?_, ?_, ?_⟩
  · intro heq
    exact Proposition.not_valid_falsity (heq ▸ hvalid)
  · intro name heq
    exact Proposition.not_valid_atom name (heq ▸ hvalid)
  · intro a b hne heq
    exact Proposition.not_valid_peirce hne (heq ▸ hvalid)
  · intro p World _ model world hnot heq
    exact hnot (heq ▸ Session.valid_of_result hresult World model world)

/-- A variable of a hypothesis that is forced at the later of two worlds, and a session that proves
a goal, which is then forced at the earlier one. -/
theorem kripke_soundness_discovery :
    ((Term.var "x").infer (.ofList [("x", .atom "A")]) = .ok (.atom "A") ∧
      (∀ binding ∈ (Context.ofList [("x", .atom "A")]).bindings,
        (KripkeModel.discovery "A").Forces true binding.2) ∧
      (KripkeModel.discovery "A").Forces true (.atom "A")) ∧
    (Session.run ["A => A", "intro x", "exact x"]).result =
        .ok ⟨.implies (.atom "A") (.atom "A"), .lam "x" (.atom "A") (.var "x")⟩ ∧
      (KripkeModel.discovery "A").Forces false (.implies (.atom "A") (.atom "A")) := by
  have hinfer : (Term.var "x").infer (.ofList [("x", .atom "A")]) = .ok (.atom "A") := rfl
  have hall : ∀ binding ∈ (Context.ofList [("x", .atom "A")]).bindings,
      (KripkeModel.discovery "A").Forces true binding.2 := by
    intro binding hbinding
    obtain rfl := List.mem_singleton.mp hbinding
    exact ⟨rfl, rfl⟩
  have hresult : (Session.run ["A => A", "intro x", "exact x"]).result =
      .ok ⟨.implies (.atom "A") (.atom "A"), .lam "x" (.atom "A") (.var "x")⟩ := by
    cbv
  exact ⟨⟨hinfer, hall, kripke_soundness.1 Bool _ _ _ _ hinfer true hall⟩, hresult,
    (kripke_soundness.2 _ _ hresult).1 Bool _ false⟩

end Sequitur
