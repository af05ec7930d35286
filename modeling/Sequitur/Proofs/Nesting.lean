import Sequitur.Proofs.Commands
import Sequitur.Proofs.Subformulas

/-! # Nested subgoals

A goal waits while its subgoal is worked on, and that one may be waiting for a
subgoal of its own. An elimination can lead back to a goal that is waiting
already. Then the way there can be gone again, and there is no limit to how
deep subgoals lie. As long as no goal comes back the subgoals are different
parts of the sequent at the start, and its size limits their number.
-/

namespace Sequitur

open Text

/-- The number of atoms, constants and connectives. -/
def Proposition.size : Proposition → Nat
  | .atom _ => 1
  | .implies a b => a.size + b.size + 1
  | .and a b => a.size + b.size + 1
  | .or a b => a.size + b.size + 1
  | .truth => 1
  | .falsity => 1

theorem Proposition.length_subformulas (p : Proposition) : p.subformulas.length = p.size := by
  induction p with
  | atom _ | truth | falsity => rfl
  | implies a b iha ihb | and a b iha ihb | or a b iha ihb =>
      rw [subformulas, List.length_cons, List.length_append, iha, ihb, size]

/-! ## Subgoals that can be opened -/

/-- An elimination can refer to a hypothesis: it is not hidden, and its name survives trimming. -/
def Context.Offers (context : Context) (p : Proposition) : Prop :=
  ∃ name, BeginsSolid name ∧ EndsSolid name ∧ context.Binds name p

/-- The subgoals that a line can open. -/
inductive Sequent.Opens (sequent : Sequent) : Sequent → Prop where
  | intro {name : String} {a b : Proposition} (hgoal : sequent.goal = .implies a b)
      (hname : isIdentifier name = true) : Opens sequent ⟨sequent.context.extend name a, b⟩
  | elim {a : Proposition} (hoffers : sequent.context.Offers (.implies a sequent.goal)) :
      Opens sequent ⟨sequent.context, a⟩

namespace Sequent

theorem opens_of_performLine {sequent sub : Sequent} {line : String} {frame : Frame}
    (hstep : sequent.performLine line = .ok (.subgoal sub frame)) : sequent.Opens sub := by
  rcases performLine_eq_ok_iff.mp hstep with ⟨name, a, b, -, hgoal, hname, hstep⟩ |
    ⟨name, a, hcommand, hne, hbinds, hstep⟩ | ⟨text, term, -, -, -, hstep⟩
  · cases hstep
    exact .intro hgoal hname
  · cases hstep
    -- The argument of a command has been trimmed.
    obtain rfl : (Command.ofLine line).argument = name := congrArg Command.argument hcommand
    obtain ⟨hbegins, hends⟩ := solid_of_trim_ne_empty hne
    exact .elim ⟨_, hbegins, hends, hbinds⟩
  · cases hstep

theorem Opens.exists_line {sequent sub : Sequent} (hopens : sequent.Opens sub) :
    ∃ line frame, sequent.performLine (chomp line) = .ok (.subgoal sub frame) := by
  cases hopens with
  | @intro name a b hgoal hname =>
      have hwrites := Writes.of_isIdentifier hname
      refine ⟨"intro " ++ name, .lam name a, ?_⟩
      rw [chomp_eq_self (hwrites.ends.append "intro ")]
      exact performLine_intro_identifier hgoal hname
  | @elim a hoffers =>
      obtain ⟨name, hbegins, hends, hbinds⟩ := hoffers
      refine ⟨"elim " ++ name, .app name, ?_⟩
      rw [chomp_eq_self (hends.append "elim "), performLine_elim, trim_eq_self hbegins hends]
      refine elim_eq_ok_iff.mpr ⟨?_, a, hbinds, rfl⟩
      rintro rfl
      obtain ⟨c, hc, -⟩ := hbegins
      cases hc

/-- Whatever is opened within a sequent, however deep, arises from it. -/
theorem arisesFrom_of_transGen {sequent inner : Sequent}
    (hinner : Relation.TransGen Opens sequent inner) : inner.ArisesFrom sequent := by
  have harises : ∀ {outer sub : Sequent}, outer.Opens sub → sub.ArisesFrom outer := by
    intro outer sub hopens
    obtain ⟨line, frame, hstep⟩ := hopens.exists_line
    exact (admits_of_performLine hstep).arisesFrom
  induction hinner with
  | single hopens => exact harises hopens
  | tail _ hopens ih => exact (harises hopens).trans ih

end Sequent

/-! ## Open subgoals -/

namespace Elaboration

/-- For each time that a run asks for a line, the subgoals that are open then: the one that was
opened for the first goal, the one that was opened for that subgoal, and so on. -/
def openSubgoals (sequent : Sequent) : List String → List (List Sequent)
  | [] => [[]]
  | line :: rest =>
      match sequent.performLine (chomp line) with
      | .error _ => [] :: openSubgoals sequent rest
      | .ok (.closed _) => [[]]
      | .ok (.subgoal sub _) => [] :: (openSubgoals sub rest).map (sub :: ·)

theorem openSubgoals_of_error {sequent : Sequent} {line : String} {error : TacticError}
    (hstep : sequent.performLine (chomp line) = .error error) (rest : List String) :
    openSubgoals sequent (line :: rest) = [] :: openSubgoals sequent rest := by
  simp only [openSubgoals, hstep]

theorem openSubgoals_of_closed {sequent : Sequent} {line : String} {term : Term}
    (hstep : sequent.performLine (chomp line) = .ok (.closed term)) (rest : List String) :
    openSubgoals sequent (line :: rest) = [[]] := by
  simp only [openSubgoals, hstep]

theorem openSubgoals_of_subgoal {sequent sub : Sequent} {line : String} {frame : Frame}
    (hstep : sequent.performLine (chomp line) = .ok (.subgoal sub frame)) (rest : List String) :
    openSubgoals sequent (line :: rest) = [] :: (openSubgoals sub rest).map (sub :: ·) := by
  simp only [openSubgoals, hstep]

/-- The run works on the innermost of the subgoals that are open. -/
theorem innermost_openSubgoals (sequent : Sequent) (lines : List String) :
    (openSubgoals sequent lines).map (·.getLastD sequent) = (run sequent lines).sequents := by
  induction lines generalizing sequent with
  | nil => rfl
  | cons line rest ih =>
      rcases hstep : sequent.performLine (chomp line) with error | (term | ⟨sub, frame⟩)
      · rw [openSubgoals_of_error hstep, run_of_error hstep, sequents_after, ← ih sequent]
        rfl
      · rw [openSubgoals_of_closed hstep, run_of_closed hstep]
        rfl
      · rw [openSubgoals_of_subgoal hstep, run_of_subgoal hstep, sequents_after, sequents_within,
          ← ih sub, List.map_cons, List.map_map]
        simp only [Function.comp_def, List.getLastD_cons, List.getLastD_nil]

/-- Each subgoal was opened for the one around it. -/
theorem isChain_of_mem_openSubgoals {sequent : Sequent} {lines : List String}
    {subgoals : List Sequent} (hmem : subgoals ∈ openSubgoals sequent lines) :
    List.IsChain Sequent.Opens (sequent :: subgoals) := by
  induction lines generalizing sequent subgoals with
  | nil =>
      obtain rfl := List.mem_singleton.mp hmem
      exact List.isChain_singleton sequent
  | cons line rest ih =>
      rcases hstep : sequent.performLine (chomp line) with error | (term | ⟨sub, frame⟩)
      · rw [openSubgoals_of_error hstep] at hmem
        rcases List.mem_cons.mp hmem with rfl | hrest
        · exact List.isChain_singleton sequent
        · exact ih hrest
      · rw [openSubgoals_of_closed hstep] at hmem
        obtain rfl := List.mem_singleton.mp hmem
        exact List.isChain_singleton sequent
      · rw [openSubgoals_of_subgoal hstep] at hmem
        rcases List.mem_cons.mp hmem with rfl | hmem
        · exact List.isChain_singleton sequent
        · obtain ⟨inner, hinner, rfl⟩ := List.mem_map.mp hmem
          exact List.isChain_cons_cons.mpr ⟨Sequent.opens_of_performLine hstep, ih hinner⟩

end Elaboration

namespace Sequent

theorem transGen_of_mem {sequent inner : Sequent} {subgoals : List Sequent}
    (hchain : List.IsChain Opens (sequent :: subgoals)) (hinner : inner ∈ subgoals) :
    Relation.TransGen Opens sequent inner :=
  (hchain.imp fun _ _ => Relation.TransGen.single).rel_cons hinner

/-! ## As long as no goal comes back -/

/-- Nested subgoals with different goals are less than the propositions at the start have parts. -/
theorem length_lt_of_nodup {sequent : Sequent} {subgoals : List Sequent}
    (hchain : List.IsChain Opens (sequent :: subgoals))
    (hnodup : (sequent.goal :: subgoals.map (·.goal)).Nodup) :
    subgoals.length < (sequent.propositions.map Proposition.size).sum := by
  have hparts : sequent.goal :: subgoals.map (·.goal) ⊆
      sequent.propositions.flatMap Proposition.subformulas := by
    refine List.cons_subset.mpr ⟨?_, ?_⟩
    · exact List.mem_flatMap.mpr ⟨_, List.mem_cons_self, Proposition.mem_subformulas_self _⟩
    · intro p hp
      obtain ⟨inner, hinner, rfl⟩ := List.mem_map.mp hp
      have harises := arisesFrom_of_transGen (transGen_of_mem hchain hinner)
      exact List.mem_flatMap.mpr (harises.parts _ List.mem_cons_self)
  have hlength := (List.subperm_of_subset hnodup hparts).length_le
  simp only [List.length_cons, List.length_map, List.length_flatMap,
    Proposition.length_subformulas] at hlength
  exact hlength

end Sequent

/-! ## When a goal comes back -/

namespace Context

/-- There is always a name left under which a hypothesis hides no other one. -/
theorem exists_fresh (context : Context) :
    ∃ name, isIdentifier name = true ∧ ∀ p, ¬ context.Binds name p := by
  have hinjective : Function.Injective depthName := fun _ _ => depthName_injective
  have hnames := Set.infinite_range_of_injective hinjective
  obtain ⟨_, ⟨depth, rfl⟩, hfresh⟩ :=
    hnames.exists_notMem_finset (context.bindings.map Prod.fst).toFinset
  refine ⟨depthName depth, isIdentifier_depthName depth, ?_⟩
  intro p hbinds
  apply hfresh
  exact List.mem_toFinset.mpr (List.mem_map_of_mem hbinds.mem_bindings)

theorem offers_extend_self (context : Context) {name : String} (hname : isIdentifier name = true)
    (p : Proposition) : (context.extend name p).Offers p := by
  have hwrites := Writes.of_isIdentifier hname
  exact ⟨name, hwrites.begins, hwrites.ends, .newest context name p⟩

theorem Offers.extend {context : Context} {p : Proposition} (hoffers : context.Offers p)
    {name : String} (hfresh : ∀ q, ¬ context.Binds name q) (q : Proposition) :
    (context.extend name q).Offers p := by
  obtain ⟨other, hbegins, hends, hbinds⟩ := hoffers
  refine ⟨other, hbegins, hends, .older name q ?_ hbinds⟩
  rintro rfl
  exact hfresh p hbinds

theorem Offers.of_extend {context : Context} {name : String} {p q : Proposition}
    (hoffers : (context.extend name q).Offers p) : p = q ∨ context.Offers p := by
  obtain ⟨other, hbegins, hends, hbinds⟩ := hoffers
  rw [← find?_eq_some_iff, find?_extend] at hbinds
  split at hbinds
  next => exact Or.inl (Option.some.inj hbinds).symm
  next => exact Or.inr ⟨other, hbegins, hends, (find?_eq_some_iff _ _ _).mp hbinds⟩

end Context

namespace Sequent

/-- A sequent with the goal of another one and with all hypotheses that can be referred to there,
under whatever names. -/
structure Covers (sequent other : Sequent) : Prop where
  goal : sequent.goal = other.goal
  offers : ∀ p, other.context.Offers p → sequent.context.Offers p

theorem Covers.refl (sequent : Sequent) : sequent.Covers sequent :=
  ⟨rfl, fun _ => id⟩

/-- What can be opened for a sequent can be opened for one that covers it, and without hiding a
hypothesis: a fresh name serves as well as any other. -/
theorem Covers.exists_opens {sequent other sub : Sequent} (hcovers : sequent.Covers other)
    (hopens : other.Opens sub) :
    ∃ inner, sequent.Opens inner ∧ inner.Covers sub ∧
      ∀ p, sequent.context.Offers p → inner.context.Offers p := by
  cases hopens with
  | @intro name a b hgoal _ =>
      obtain ⟨fresh, hname, hfresh⟩ := sequent.context.exists_fresh
      refine ⟨⟨sequent.context.extend fresh a, b⟩, .intro (hcovers.goal.trans hgoal) hname,
        ⟨rfl, ?_⟩, fun p hoffers => hoffers.extend hfresh a⟩
      intro p hoffers
      rcases hoffers.of_extend with rfl | holder
      · exact sequent.context.offers_extend_self hname p
      · exact (hcovers.offers p holder).extend hfresh a
  | @elim a hoffers =>
      have hoffers : sequent.context.Offers (.implies a sequent.goal) := by
        rw [hcovers.goal]
        exact hcovers.offers _ hoffers
      exact ⟨⟨sequent.context, a⟩, .elim hoffers, ⟨rfl, hcovers.offers⟩, fun _ => id⟩

theorem Covers.exists_transGen {sequent other inner : Sequent} (hcovers : sequent.Covers other)
    (hinner : Relation.TransGen Opens other inner) :
    ∃ last, Relation.TransGen Opens sequent last ∧ last.Covers inner ∧
      ∀ p, sequent.context.Offers p → last.context.Offers p := by
  induction hinner with
  | single hopens =>
      obtain ⟨last, hlast, hcovers, hgrows⟩ := hcovers.exists_opens hopens
      exact ⟨last, .single hlast, hcovers, hgrows⟩
  | tail _ hopens ih =>
      obtain ⟨middle, hmiddle, hcovers, hgrows⟩ := ih
      obtain ⟨last, hlast, hcovers, hgrowsOn⟩ := hcovers.exists_opens hopens
      exact ⟨last, hmiddle.tail hlast, hcovers, fun p hoffers => hgrowsOn p (hgrows p hoffers)⟩

/-- Subgoals can be opened one within another, as many as given. -/
def NestsTo : Nat → Sequent → Prop
  | 0, _ => True
  | depth + 1, sequent => ∃ sub, sequent.Opens sub ∧ sub.NestsTo depth

theorem NestsTo.of_succ {sequent : Sequent} {depth : Nat} (hnests : sequent.NestsTo (depth + 1)) :
    sequent.NestsTo depth := by
  induction depth generalizing sequent with
  | zero => trivial
  | succ depth ih =>
      obtain ⟨sub, hopens, hsub⟩ := hnests
      exact ⟨sub, hopens, ih hsub⟩

theorem Covers.nestsTo {sequent other : Sequent} (hcovers : sequent.Covers other) {depth : Nat}
    (hnests : other.NestsTo depth) : sequent.NestsTo depth := by
  induction depth generalizing sequent other with
  | zero => trivial
  | succ depth ih =>
      obtain ⟨sub, hopens, hsub⟩ := hnests
      obtain ⟨inner, hinner, hcovers, -⟩ := hcovers.exists_opens hopens
      exact ⟨inner, hinner, ih hcovers hsub⟩

theorem nestsTo_succ_of_transGen {sequent inner : Sequent} {depth : Nat}
    (hinner : Relation.TransGen Opens sequent inner) (hnests : inner.NestsTo depth) :
    sequent.NestsTo (depth + 1) := by
  induction hinner with
  | single hopens => exact ⟨_, hopens, hnests⟩
  | tail _ hopens ih => exact ih (NestsTo.of_succ ⟨_, hopens, hnests⟩)

/-- If a goal comes back within its own subgoals, there is no limit to their number. On the way back
no hypothesis needs to be hidden, so the same way leads on from there. -/
theorem nestsTo_of_goal_eq {sequent inner : Sequent}
    (hinner : Relation.TransGen Opens sequent inner) (hgoal : inner.goal = sequent.goal)
    (depth : Nat) : sequent.NestsTo depth := by
  obtain ⟨last, hlast, hcovers, hgrows⟩ := (Covers.refl sequent).exists_transGen hinner
  have hback : last.Covers sequent := ⟨hcovers.goal.trans hgoal, hgrows⟩
  induction depth with
  | zero => trivial
  | succ depth ih => exact nestsTo_succ_of_transGen hlast (hback.nestsTo ih)

theorem nestsTo_of_not_nodup {sequent : Sequent} {subgoals : List Sequent}
    (hchain : List.IsChain Opens (sequent :: subgoals))
    (hrecurs : ¬ (sequent.goal :: subgoals.map (·.goal)).Nodup) (depth : Nat) :
    sequent.NestsTo depth := by
  induction subgoals generalizing sequent with
  | nil => exact absurd (List.nodup_singleton _) hrecurs
  | cons sub rest ih =>
      by_cases hback : sequent.goal ∈ (sub :: rest).map (·.goal)
      · obtain ⟨inner, hinner, hgoal⟩ := List.mem_map.mp hback
        exact nestsTo_of_goal_eq (transGen_of_mem hchain hinner) hgoal depth
      · obtain ⟨hopens, hrest⟩ := List.isChain_cons_cons.mp hchain
        have hrecurs : ¬ (sub.goal :: rest.map (·.goal)).Nodup := by
          intro hnodup
          exact hrecurs (List.nodup_cons.mpr ⟨hback, hnodup⟩)
        exact NestsTo.of_succ ⟨sub, hopens, ih hrest hrecurs⟩

end Sequent

namespace Elaboration

theorem exists_openSubgoals_of_nestsTo {sequent : Sequent} {depth : Nat}
    (hnests : sequent.NestsTo depth) :
    ∃ lines, ∃ subgoals ∈ openSubgoals sequent lines, subgoals.length = depth := by
  induction depth generalizing sequent with
  | zero => exact ⟨[], [], List.mem_singleton_self _, rfl⟩
  | succ depth ih =>
      obtain ⟨sub, hopens, hsub⟩ := hnests
      obtain ⟨line, frame, hstep⟩ := hopens.exists_line
      obtain ⟨rest, inner, hinner, hlength⟩ := ih hsub
      refine ⟨line :: rest, sub :: inner, ?_, congrArg Nat.succ hlength⟩
      rw [openSubgoals_of_subgoal hstep]
      exact List.mem_cons_of_mem _ (List.mem_map_of_mem hinner)

/-- The size of what a run starts from limits the number of nested subgoals, but only as long as no
goal comes back within its own subgoals. If some lines make one come back, there are lines for every
depth. So for a goal without hypotheses its size is a limit, whatever the lines, exactly if no
lines make a goal come back. -/
theorem nesting_limited_unless_goal_returns (context : Context) (goal : Proposition) :
    (∀ lines, ∀ subgoals ∈ openSubgoals ⟨context, goal⟩ lines,
      (goal :: subgoals.map (·.goal)).Nodup →
        subgoals.length < ((goal :: context.hypotheses).map Proposition.size).sum) ∧
    ((∃ lines, ∃ subgoals ∈ openSubgoals ⟨context, goal⟩ lines,
        ¬ (goal :: subgoals.map (·.goal)).Nodup) →
      ∀ depth, ∃ lines, ∃ subgoals ∈ openSubgoals ⟨context, goal⟩ lines,
        subgoals.length = depth) ∧
    ((∀ lines, ∀ subgoals ∈ openSubgoals ⟨.empty, goal⟩ lines, subgoals.length ≤ goal.size) ↔
      ∀ lines, ∀ subgoals ∈ openSubgoals ⟨.empty, goal⟩ lines,
        (goal :: subgoals.map (·.goal)).Nodup) := by
  have hdeep : ∀ context : Context, (∃ lines, ∃ subgoals ∈ openSubgoals ⟨context, goal⟩ lines,
        ¬ (goal :: subgoals.map (·.goal)).Nodup) →
      ∀ depth, ∃ lines, ∃ subgoals ∈ openSubgoals ⟨context, goal⟩ lines,
        subgoals.length = depth := by
    rintro context ⟨lines, subgoals, hmem, hrecurs⟩ depth
    have hchain := isChain_of_mem_openSubgoals hmem
    exact exists_openSubgoals_of_nestsTo (Sequent.nestsTo_of_not_nodup hchain hrecurs depth)
  refine ⟨?_, hdeep context, ?_, ?_⟩
  · intro lines subgoals hmem hnodup
    exact Sequent.length_lt_of_nodup (isChain_of_mem_openSubgoals hmem) hnodup
  · intro hbounded lines subgoals hmem
    by_contra hrecurs
    obtain ⟨lines, deeper, hdeeper, hlength⟩ :=
      hdeep .empty ⟨lines, subgoals, hmem, hrecurs⟩ (goal.size + 1)
    have hbound := hbounded lines deeper hdeeper
    omega
  · intro hnodup lines subgoals hmem
    have hlength := Sequent.length_lt_of_nodup (isChain_of_mem_openSubgoals hmem)
      (hnodup lines subgoals hmem)
    exact Nat.le_of_lt hlength

/-- An elimination that leads back to its own goal, as often as it is repeated: without hypotheses
there are eight nested subgoals for a goal of size seven, and with one hypothesis two for an atom. -/
theorem nesting_beyond_size :
    (¬ ∀ lines, ∀ subgoals ∈ openSubgoals ⟨.empty, .implies (.implies (.atom "A") (.atom "A"))
        (.implies (.atom "A") (.atom "A"))⟩ lines,
      subgoals.length ≤ (Proposition.implies (.implies (.atom "A") (.atom "A"))
        (.implies (.atom "A") (.atom "A"))).size) ∧
    ¬ ∀ lines, ∀ subgoals ∈
        openSubgoals ⟨.ofList [("f", .implies (.atom "A") (.atom "A"))], .atom "A"⟩ lines,
      subgoals.length ≤ (Proposition.atom "A").size := by
  constructor
  · intro hbounded
    have hdeep : ∃ subgoals ∈ openSubgoals ⟨.empty, .implies (.implies (.atom "A") (.atom "A"))
          (.implies (.atom "A") (.atom "A"))⟩ (["intro f", "intro x"] ++ List.replicate 6 "elim f"),
        subgoals.length = 8 := by
      decide +kernel
    obtain ⟨subgoals, hmem, hlength⟩ := hdeep
    exact absurd (hbounded _ subgoals hmem) (by rw [hlength]; decide)
  · intro hbounded
    have hdeep : ∃ subgoals ∈
          openSubgoals ⟨.ofList [("f", .implies (.atom "A") (.atom "A"))], .atom "A"⟩
            ["elim f", "elim f"],
        subgoals.length = 2 := by
      decide +kernel
    obtain ⟨subgoals, hmem, hlength⟩ := hdeep
    exact absurd (hbounded _ subgoals hmem) (by rw [hlength]; decide)

end Elaboration

end Sequitur
