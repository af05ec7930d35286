import Sequitur.Elaboration
import Sequitur.Proofs.Typing

/-! # Soundness of tactics

A tactic takes one of three steps on a sequent. Each of them is exact: a term
proves the subgoal precisely if it proves the goal once it is put into the
frame. Frames pile up as subgoals are opened, and a run fills them from the
inside out, so the term that it ends with proves the goal it started from.
-/

namespace Sequitur

/-- The steps that tactics take on a sequent. -/
inductive Sequent.Admits (sequent : Sequent) : Step → Prop where
  | intro {name : String} {a b : Proposition} (hgoal : sequent.goal = .implies a b)
      (hname : isIdentifier name = true) :
      Admits sequent (.subgoal ⟨sequent.context.extend name a, b⟩ (.lam name a))
  | elim {name : String} {a : Proposition}
      (hbinds : sequent.context.Binds name (.implies a sequent.goal)) :
      Admits sequent (.subgoal ⟨sequent.context, a⟩ (.app name))
  | exact {text : String} {term : Term} (hparse : Term.parse text = .ok term)
      (htyping : Typing sequent.context term sequent.goal) :
      Admits sequent (.closed term)

namespace Sequent

/-- An introduction succeeds under every identifier if the goal is an implication. -/
theorem intro_eq_ok_iff {sequent : Sequent} {name : String} {step : Step} :
    sequent.intro name = .ok step ↔
      ∃ a b, sequent.goal = .implies a b ∧ isIdentifier name = true ∧
        step = .subgoal ⟨sequent.context.extend name a, b⟩ (.lam name a) := by
  constructor
  · intro hstep
    unfold intro at hstep
    split at hstep
    next a b hgoal =>
      split at hstep
      next => contradiction
      next =>
        split at hstep
        next hname => exact ⟨a, b, hgoal, hname, (Except.ok.inj hstep).symm⟩
        next => contradiction
    next => contradiction
  · rintro ⟨a, b, hgoal, hname, rfl⟩
    have hne : name ≠ "" := by
      rintro rfl
      exact absurd hname (by decide)
    simp only [intro, hgoal, if_neg hne, if_pos hname]

/-- An elimination succeeds if the newest hypothesis of that name is an implication of the goal. -/
theorem elim_eq_ok_iff {sequent : Sequent} {name : String} {step : Step} :
    sequent.elim name = .ok step ↔
      name ≠ "" ∧ ∃ a, sequent.context.Binds name (.implies a sequent.goal) ∧
        step = .subgoal ⟨sequent.context, a⟩ (.app name) := by
  constructor
  · intro hstep
    unfold elim at hstep
    split at hstep
    next => contradiction
    next hne =>
      split at hstep
      next hbound =>
        split at hstep
        next a b hget =>
          split at hstep
          next hgoal =>
            subst hgoal
            have hlookup := Context.lookup_eq_get hbound
            rw [hget, Term.lookup_eq_ok] at hlookup
            exact ⟨hne, a, hlookup, (Except.ok.inj hstep).symm⟩
          next => contradiction
        next => contradiction
      next => contradiction
  · rintro ⟨hne, a, hbinds, rfl⟩
    have hlookup := (Term.lookup_eq_ok _ _ _).mpr hbinds
    have hbound := (Context.contains_iff_lookup_ok _ _).mpr ⟨_, hlookup⟩
    have hget : sequent.context.get name hbound = .implies a sequent.goal := by
      rw [Context.lookup_eq_get hbound] at hlookup
      exact Except.ok.inj hlookup
    simp only [elim, if_neg hne, dif_pos hbound, hget, if_true]

/-- The exact tactic succeeds if its text is a term that proves the goal. -/
theorem exact_eq_ok_iff {sequent : Sequent} {text : String} {step : Step} :
    sequent.exact text = .ok step ↔
      ∃ term, Term.parse text = .ok term ∧ Typing sequent.context term sequent.goal ∧
        step = .closed term := by
  constructor
  · intro hstep
    unfold exact at hstep
    split at hstep
    next => contradiction
    next term hparse =>
      split at hstep
      next => contradiction
      next hcheck =>
        have htyping := (Term.check_eq_ok_iff _ _ _).mp hcheck
        exact ⟨term, hparse, htyping, (Except.ok.inj hstep).symm⟩
  · rintro ⟨term, hparse, htyping, rfl⟩
    simp only [exact, hparse, (Term.check_eq_ok_iff _ _ _).mpr htyping]

/-- Which step a line takes is settled by the tactic that it names and the argument that it gives. -/
theorem performLine_eq_ok_iff {sequent : Sequent} {line : String} {step : Step} :
    sequent.performLine line = .ok step ↔
      (∃ name a b, Command.ofLine line = ⟨"intro", name⟩ ∧ sequent.goal = .implies a b ∧
        isIdentifier name = true ∧
        step = .subgoal ⟨sequent.context.extend name a, b⟩ (.lam name a)) ∨
      (∃ name a, Command.ofLine line = ⟨"elim", name⟩ ∧ name ≠ "" ∧
        sequent.context.Binds name (.implies a sequent.goal) ∧
        step = .subgoal ⟨sequent.context, a⟩ (.app name)) ∨
      ∃ text term, Command.ofLine line = ⟨"exact", text⟩ ∧ Term.parse text = .ok term ∧
        Typing sequent.context term sequent.goal ∧ step = .closed term := by
  rw [performLine]
  obtain ⟨tactic, argument⟩ := Command.ofLine line
  constructor
  · intro hstep
    unfold perform at hstep
    split at hstep
    next htactic =>
      obtain rfl : tactic = "intro" := htactic
      obtain ⟨a, b, hstep⟩ := intro_eq_ok_iff.mp hstep
      exact Or.inl ⟨argument, a, b, rfl, hstep⟩
    next htactic =>
      obtain rfl : tactic = "exact" := htactic
      obtain ⟨term, hstep⟩ := exact_eq_ok_iff.mp hstep
      exact Or.inr (Or.inr ⟨argument, term, rfl, hstep⟩)
    next htactic =>
      obtain rfl : tactic = "elim" := htactic
      obtain ⟨hne, a, hstep⟩ := elim_eq_ok_iff.mp hstep
      exact Or.inr (Or.inl ⟨argument, a, rfl, hne, hstep⟩)
    next => cases hstep
    next => cases hstep
  · rintro (⟨name, a, b, ⟨⟩, hstep⟩ | ⟨name, a, ⟨⟩, hne, hstep⟩ | ⟨text, term, ⟨⟩, hstep⟩)
    · exact intro_eq_ok_iff.mpr ⟨a, b, hstep⟩
    · exact elim_eq_ok_iff.mpr ⟨hne, a, hstep⟩
    · exact exact_eq_ok_iff.mpr ⟨term, hstep⟩

/-- A line that does not fail takes one of the admitted steps. -/
theorem admits_of_performLine {sequent : Sequent} {line : String} {step : Step}
    (hstep : sequent.performLine line = .ok step) : sequent.Admits step := by
  rcases performLine_eq_ok_iff.mp hstep with ⟨name, a, b, -, hgoal, hname, rfl⟩ |
    ⟨name, a, -, -, hbinds, rfl⟩ | ⟨text, term, -, hparse, htyping, rfl⟩
  · exact .intro hgoal hname
  · exact .elim hbinds
  · exact .exact hparse htyping

/-- A term proves the subgoal of a step exactly if it proves the goal in the frame of the step. -/
theorem Admits.typing_fill_iff {sequent sub : Sequent} {frame : Frame}
    (hstep : sequent.Admits (.subgoal sub frame)) (term : Term) :
    Typing sequent.context (frame.fill term) sequent.goal ↔
      Typing sub.context term sub.goal := by
  cases hstep with
  | intro hgoal hname =>
      rw [hgoal]
      constructor
      · intro htyping
        cases htyping with
        | lam hbody => exact hbody
      · exact Typing.lam
  | elim hbinds =>
      constructor
      · intro htyping
        cases htyping with
        | app hfunction hargument =>
            cases hfunction with
            | var hother =>
                -- The function is a variable, so its newest binding fixes the antecedent.
                obtain ⟨rfl, -⟩ := Proposition.implies.inj (hother.unique hbinds)
                exact hargument
      · exact Typing.app (.var hbinds)

/-- Every step that a line takes is exact. If it opens a subgoal, a term proves the subgoal if and
only if it proves the goal once it is put into the frame, and if it closes the goal, the term that
it gives proves the goal. Steps are taken by introductions under an identifier, eliminations of the
newest hypothesis of a name, and terms that prove the goal, and by nothing else. -/
theorem tactic_steps_exact (sequent : Sequent) (line : String) :
    (∀ sub frame, sequent.performLine line = .ok (.subgoal sub frame) →
      ∀ term : Term, (frame.fill term).infer sequent.context = .ok sequent.goal ↔
        term.infer sub.context = .ok sub.goal) ∧
    (∀ term, sequent.performLine line = .ok (.closed term) →
      term.infer sequent.context = .ok sequent.goal) ∧
    ∀ step, sequent.performLine line = .ok step ↔
      (∃ name a b, Command.ofLine line = ⟨"intro", name⟩ ∧ sequent.goal = .implies a b ∧
        isIdentifier name = true ∧
        step = .subgoal ⟨sequent.context.extend name a, b⟩ (.lam name a)) ∨
      (∃ name a, Command.ofLine line = ⟨"elim", name⟩ ∧ name ≠ "" ∧
        sequent.context.lookup name = .ok (.implies a sequent.goal) ∧
        step = .subgoal ⟨sequent.context, a⟩ (.app name)) ∨
      ∃ text term, Command.ofLine line = ⟨"exact", text⟩ ∧ Term.parse text = .ok term ∧
        term.infer sequent.context = .ok sequent.goal ∧ step = .closed term := by
  simp only [Term.infer_eq_ok_iff, Term.lookup_eq_ok]
  refine ⟨?_, ?_, fun step => performLine_eq_ok_iff⟩
  · intro sub frame hstep term
    exact (admits_of_performLine hstep).typing_fill_iff term
  · intro term hstep
    cases admits_of_performLine hstep with
    | exact _ htyping => exact htyping

/-- An elimination of the newer of two hypotheses called `f`. The hypothesis `x` proves the subgoal,
so `f x` proves the goal; `f` does not, so neither does `f f`. -/
theorem tactic_steps_exact_hidden :
    performLine ⟨.ofList [("f", .atom "B"), ("f", .implies (.atom "A") (.atom "B")),
        ("x", .atom "A")], .atom "B"⟩ "elim   f " =
      .ok (.subgoal ⟨.ofList [("f", .atom "B"), ("f", .implies (.atom "A") (.atom "B")),
        ("x", .atom "A")], .atom "A"⟩ (.app "f")) ∧
    ((Frame.app "f").fill (.var "x")).infer (.ofList [("f", .atom "B"),
        ("f", .implies (.atom "A") (.atom "B")), ("x", .atom "A")]) = .ok (.atom "B") ∧
    ((Frame.app "f").fill (.var "f")).infer (.ofList [("f", .atom "B"),
        ("f", .implies (.atom "A") (.atom "B")), ("x", .atom "A")]) ≠ .ok (.atom "B") ∧
    performLine ⟨.ofList [("f", .atom "B"), ("f", .implies (.atom "A") (.atom "B")),
        ("x", .atom "A")], .atom "B"⟩ "exact (f) x" =
      .ok (.closed (.app (.var "f") (.var "x"))) ∧
    (Term.app (.var "f") (.var "x")).infer (.ofList [("f", .atom "B"),
        ("f", .implies (.atom "A") (.atom "B")), ("x", .atom "A")]) = .ok (.atom "B") := by
  have hopens : performLine ⟨.ofList [("f", .atom "B"), ("f", .implies (.atom "A") (.atom "B")),
        ("x", .atom "A")], .atom "B"⟩ "elim   f " =
      .ok (.subgoal ⟨.ofList [("f", .atom "B"), ("f", .implies (.atom "A") (.atom "B")),
        ("x", .atom "A")], .atom "A"⟩ (.app "f")) := by
    decide +kernel
  have hcloses : performLine ⟨.ofList [("f", .atom "B"), ("f", .implies (.atom "A") (.atom "B")),
        ("x", .atom "A")], .atom "B"⟩ "exact (f) x" =
      .ok (.closed (.app (.var "f") (.var "x"))) := by
    decide +kernel
  have hexact := (tactic_steps_exact _ _).1 _ _ hopens
  refine ⟨hopens, (hexact _).mpr rfl, ?_, hcloses, (tactic_steps_exact _ _).2.1 _ hcloses⟩
  intro hproves
  exact absurd ((hexact _).mp hproves) (by decide +kernel)

end Sequent

namespace Elaboration

theorem Ending.fill_eq_proved {frame : Frame} {ending : Ending} {term : Term} :
    ending.fill frame = .proved term ↔
      ∃ inner, ending = .proved inner ∧ frame.fill inner = term := by
  cases ending with
  | proved inner => simp [Ending.fill]
  | exhausted sequent => simp [Ending.fill]

theorem Ending.fill_eq_exhausted {frame : Frame} {ending : Ending} {unproved : Sequent} :
    ending.fill frame = .exhausted unproved ↔ ending = .exhausted unproved := by
  cases ending with
  | proved inner => simp [Ending.fill]
  | exhausted sequent => simp [Ending.fill]

@[simp]
theorem exchanges_after (exchange : Exchange) (rest : Elaboration) :
    (after exchange rest).exchanges = exchange :: rest.exchanges :=
  rfl

@[simp]
theorem ending_after (exchange : Exchange) (rest : Elaboration) :
    (after exchange rest).ending = rest.ending :=
  rfl

@[simp]
theorem exchanges_within (frame : Frame) (sub : Elaboration) :
    (within frame sub).exchanges = sub.exchanges :=
  rfl

@[simp]
theorem ending_within (frame : Frame) (sub : Elaboration) :
    (within frame sub).ending = sub.ending.fill frame :=
  rfl

theorem linesRead_after (exchange : Exchange) (rest : Elaboration) :
    (after exchange rest).linesRead = exchange.line :: rest.linesRead :=
  rfl

theorem linesRead_within (frame : Frame) (sub : Elaboration) :
    (within frame sub).linesRead = sub.linesRead :=
  rfl

theorem run_of_error {sequent : Sequent} {line : String} {error : TacticError}
    (hstep : sequent.performLine (Text.chomp line) = .error error) (rest : List String) :
    run sequent (line :: rest) =
      after ⟨sequent, Text.chomp line, some error⟩ (run sequent rest) := by
  simp only [run, hstep]

theorem run_of_closed {sequent : Sequent} {line : String} {term : Term}
    (hstep : sequent.performLine (Text.chomp line) = .ok (.closed term)) (rest : List String) :
    run sequent (line :: rest) = ⟨[⟨sequent, Text.chomp line, none⟩], .proved term⟩ := by
  simp only [run, hstep]

theorem run_of_subgoal {sequent sub : Sequent} {line : String} {frame : Frame}
    (hstep : sequent.performLine (Text.chomp line) = .ok (.subgoal sub frame))
    (rest : List String) :
    run sequent (line :: rest) =
      after ⟨sequent, Text.chomp line, none⟩ (within frame (run sub rest)) := by
  simp only [run, hstep]

/-- One line either leaves the sequent as it is, ends the run, or hands the rest of the lines to a
subgoal. -/
theorem run_cons_ending (sequent : Sequent) (line : String) (rest : List String) :
    (run sequent (line :: rest)).ending =
      match sequent.performLine (Text.chomp line) with
      | .error _ => (run sequent rest).ending
      | .ok (.closed term) => .proved term
      | .ok (.subgoal sub frame) => (run sub rest).ending.fill frame := by
  rw [run]
  rcases sequent.performLine (Text.chomp line) with error | (term | ⟨sub, frame⟩)
  · rfl
  · rfl
  · rfl

/-- What holds of every term that closes a goal, and is carried from a subgoal to its goal by the
frame between them, holds of the goal that a run started from and the term that it ends with. -/
theorem proved_induction {motive : Sequent → Term → Prop}
    (hclosed : ∀ {sequent term}, sequent.Admits (.closed term) → motive sequent term)
    (hsubgoal : ∀ {sequent sub frame term}, sequent.Admits (.subgoal sub frame) →
      motive sub term → motive sequent (frame.fill term))
    {sequent : Sequent} {lines : List String} {term : Term}
    (hproved : (run sequent lines).ending = .proved term) : motive sequent term := by
  induction lines generalizing sequent term with
  | nil => cases hproved
  | cons line rest ih =>
      rw [run_cons_ending] at hproved
      split at hproved
      -- A line that fails leaves the sequent as it was.
      next => exact ih hproved
      next closing hstep =>
        obtain rfl := Ending.proved.inj hproved
        exact hclosed (Sequent.admits_of_performLine hstep)
      next sub frame hstep =>
        obtain ⟨inner, hinner, rfl⟩ := Ending.fill_eq_proved.mp hproved
        exact hsubgoal (Sequent.admits_of_performLine hstep) (ih hinner)

/-- The term of a finished run proves the goal that the run started from. -/
theorem typing_of_run {sequent : Sequent} {lines : List String} {term : Term}
    (hproved : (run sequent lines).ending = .proved term) :
    Typing sequent.context term sequent.goal := by
  refine proved_induction (motive := fun sequent term =>
    Typing sequent.context term sequent.goal) ?_ ?_ hproved
  · intro sequent term hstep
    cases hstep with
    | exact _ htyping => exact htyping
  · intro sequent sub frame term hstep htyping
    exact (hstep.typing_fill_iff term).mpr htyping

/-- A run reads its lines from the front, one after another. -/
theorem linesRead_front (sequent : Sequent) (lines : List String) :
    (run sequent lines).linesRead <+: lines.map Text.chomp := by
  fun_induction run sequent lines with
  | case1 sequent => exact List.nil_prefix
  | case2 sequent line rest command error hstep ih =>
      rw [linesRead_after, List.map_cons]
      exact (List.prefix_cons_inj command).mpr ih
  | case3 sequent line rest command term hstep =>
      rw [List.map_cons]
      exact (List.prefix_cons_inj command).mpr List.nil_prefix
  | case4 sequent line rest command sub frame hstep ih =>
      rw [linesRead_after, linesRead_within, List.map_cons]
      exact (List.prefix_cons_inj command).mpr ih

theorem linesRead_length_le (sequent : Sequent) (lines : List String) :
    (run sequent lines).linesRead.length ≤ lines.length := by
  have hlength := (linesRead_front sequent lines).length_le
  rwa [List.length_map] at hlength

/-- A run that finds no term has read all of its lines: no failure ends it before. -/
theorem linesRead_of_exhausted {sequent unproved : Sequent} {lines : List String}
    (hexhausted : (run sequent lines).ending = .exhausted unproved) :
    (run sequent lines).linesRead = lines.map Text.chomp := by
  fun_induction run sequent lines with
  | case1 sequent => rfl
  | case2 sequent line rest command error hstep ih =>
      rw [linesRead_after, ih hexhausted, List.map_cons]
  | case3 sequent line rest command term hstep => cases hexhausted
  | case4 sequent line rest command sub frame hstep ih =>
      rw [linesRead_after, linesRead_within, ih (Ending.fill_eq_exhausted.mp hexhausted),
        List.map_cons]

/-- Whatever lines are given, and however the run is shown, the term of a finished elaboration has
exactly the goal as its proposition, under the context in which the elaboration began. -/
theorem run_proved_infers_goal (context : Context) (goal : Proposition) (lines : List String)
    (term : Term) (hproved : (run ⟨context, goal⟩ lines).ending = .proved term) :
    term.infer context = .ok goal ∧ term.check context goal = .ok () := by
  have htyping : Typing context term goal := typing_of_run hproved
  exact ⟨Term.infer_of_typing htyping, (Term.check_eq_ok_iff _ _ _).mpr htyping⟩

/-- A run with failing lines and a hidden hypothesis: the older `f` is no function, and the newer
one is applied to the hypothesis that is introduced. -/
theorem run_proved_infers_goal_hidden :
    (run ⟨.ofList [("f", .atom "B"), ("f", .implies (.atom "A") (.atom "B"))],
        .implies (.atom "A") (.atom "B")⟩
      ["cut", "intro 1", "intro y\r\n", "elim y", "elim f", "exact (y", "exact y"]).ending =
        .proved (.lam "y" (.atom "A") (.app (.var "f") (.var "y"))) ∧
    (Term.lam "y" (.atom "A") (.app (.var "f") (.var "y"))).infer
        (.ofList [("f", .atom "B"), ("f", .implies (.atom "A") (.atom "B"))]) =
      .ok (.implies (.atom "A") (.atom "B")) ∧
    (Term.lam "y" (.atom "A") (.app (.var "f") (.var "y"))).check
        (.ofList [("f", .atom "B"), ("f", .implies (.atom "A") (.atom "B"))])
        (.implies (.atom "A") (.atom "B")) = .ok () := by
  have hproved : (run ⟨.ofList [("f", .atom "B"), ("f", .implies (.atom "A") (.atom "B"))],
        .implies (.atom "A") (.atom "B")⟩
      ["cut", "intro 1", "intro y\r\n", "elim y", "elim f", "exact (y", "exact y"]).ending =
        .proved (.lam "y" (.atom "A") (.app (.var "f") (.var "y"))) := by
    decide +kernel
  exact ⟨hproved, run_proved_infers_goal _ _ _ _ hproved⟩

end Elaboration

end Sequitur
