import Sequitur.Proofs.Elaboration
import Sequitur.Session

/-! # Outcomes of sessions

A session checks the term that its engine found before it reports a proof, so
a reported proof is typed whatever the engine is. With tactics as the engine
the check never fails: a session finds a proof of the goal on its first line,
or cannot read that goal, or comes to the end of its lines.
-/

namespace Sequitur.Session

theorem result_worked (line : String) (goal : Proposition) (elaboration : Elaboration) :
    (worked line goal elaboration).result =
      match elaboration.ending with
      | .exhausted _ => .error .endOfInput
      | .proved term =>
          match term.check .empty goal with
          | .ok () => .ok ⟨goal, term⟩
          | .error error => .error (.integrity error) :=
  rfl

/-- The term of a reported proof proves its goal without hypotheses. -/
theorem typing_of_result {session : Session} {proof : Proof}
    (hresult : session.result = .ok proof) : Typing .empty proof.term proof.goal := by
  cases session with
  | noGoal => cases hresult
  | unreadableGoal line error => cases hresult
  | worked line goal elaboration =>
      rw [result_worked] at hresult
      split at hresult
      next => contradiction
      next term =>
        split at hresult
        next hcheck =>
          obtain rfl := Except.ok.inj hresult
          exact (Term.check_eq_ok_iff _ _ _).mp hcheck
        next => contradiction

/-- The ways in which a session over given lines ends. -/
inductive Outcome : List String → Except SessionError Proof → Prop where
  | noGoal : Outcome [] (.error .endOfInput)
  | unreadableGoal {first : String} {rest : List String} {error : SyntaxError}
      (hgoal : Proposition.parse (Text.chomp first) = .error error) :
      Outcome (first :: rest) (.error (.unreadableGoal error))
  | unfinished {first : String} {rest : List String} {goal : Proposition} {unproved : Sequent}
      (hgoal : Proposition.parse (Text.chomp first) = .ok goal)
      (hending : (Elaboration.run ⟨.empty, goal⟩ rest).ending = .exhausted unproved) :
      Outcome (first :: rest) (.error .endOfInput)
  | proved {first : String} {rest : List String} {proof : Proof}
      (hgoal : Proposition.parse (Text.chomp first) = .ok proof.goal)
      (hending : (Elaboration.run ⟨.empty, proof.goal⟩ rest).ending = .proved proof.term) :
      Outcome (first :: rest) (.ok proof)

theorem run_cons_of_error {first : String} {error : SyntaxError}
    (hgoal : Proposition.parse (Text.chomp first) = .error error) (rest : List String) :
    run (first :: rest) = .unreadableGoal (Text.chomp first) error := by
  simp only [run, runWith, hgoal]

theorem run_cons_of_ok {first : String} {goal : Proposition}
    (hgoal : Proposition.parse (Text.chomp first) = .ok goal) (rest : List String) :
    run (first :: rest) =
      .worked (Text.chomp first) goal (Elaboration.run ⟨.empty, goal⟩ rest) := by
  simp only [run, runWith, hgoal]

theorem outcome_run (lines : List String) : Outcome lines (run lines).result := by
  cases lines with
  | nil => exact .noGoal
  | cons first rest =>
      cases hgoal : Proposition.parse (Text.chomp first) with
      | error error =>
          rw [run_cons_of_error hgoal]
          exact .unreadableGoal hgoal
      | ok goal =>
          rw [run_cons_of_ok hgoal, result_worked]
          cases hending : (Elaboration.run ⟨.empty, goal⟩ rest).ending with
          | exhausted unproved => exact .unfinished hgoal hending
          | proved term =>
              -- The last check passes, since the engine is sound.
              have hcheck : term.check .empty goal = .ok () :=
                (Term.check_eq_ok_iff _ _ _).mpr (Elaboration.typing_of_run hending)
              simp only [hcheck]
              exact @Outcome.proved first rest ⟨goal, term⟩ hgoal hending

theorem linesRead_of_endOfInput {lines : List String}
    (hresult : (run lines).result = .error .endOfInput) :
    (run lines).linesRead = lines.map Text.chomp := by
  have houtcome := outcome_run lines
  rw [hresult] at houtcome
  cases houtcome with
  | noGoal => rfl
  | @unfinished first rest goal unproved hgoal hending =>
      have hread : (Elaboration.run ⟨.empty, goal⟩ rest).linesRead = rest.map Text.chomp :=
        Elaboration.linesRead_of_exhausted hending
      rw [run_cons_of_ok hgoal, List.map_cons, ← hread]
      rfl

theorem exists_unreadableGoal_iff (lines : List String) :
    (∃ error, (run lines).result = .error (.unreadableGoal error)) ↔
      ∃ first ∈ lines.head?, ∃ error, Proposition.parse (Text.chomp first) = .error error := by
  constructor
  · rintro ⟨error, hresult⟩
    have houtcome := outcome_run lines
    rw [hresult] at houtcome
    cases houtcome with
    | @unreadableGoal first _ _ hgoal => exact ⟨first, rfl, error, hgoal⟩
  · rintro ⟨first, hfirst, error, hgoal⟩
    obtain ⟨rest, rfl⟩ := List.head?_eq_some_iff.mp hfirst
    refine ⟨error, ?_⟩
    rw [run_cons_of_error hgoal]
    rfl

/-- Whatever its lines are, a session ends in exactly one of three ways: its input ends, and it has
read all of it; its first line is no proposition; or it has a proof of the proposition on its first
line. The term of the proof always passes the last check. No failure ends the engine, which works
on until it has a term or has read all lines. How the session talks does not matter: what it shows
and records is read off what happened. -/
theorem session_outcome (lines : List String) :
    (match (run lines).result with
      | .error .endOfInput => (run lines).linesRead = lines.map Text.chomp
      | .error (.unreadableGoal error) =>
          ∃ first ∈ lines.head?, Proposition.parse (Text.chomp first) = .error error
      | .error (.integrity _) => False
      | .ok proof => ∃ first ∈ lines.head?,
          Proposition.parse (Text.chomp first) = .ok proof.goal ∧
          proof.term.infer .empty = .ok proof.goal) ∧
    ((∃ error, (run lines).result = .error (.unreadableGoal error)) ↔
      ∃ first ∈ lines.head?, ∃ error, Proposition.parse (Text.chomp first) = .error error) ∧
    ∀ (sequent : Sequent) (commands : List String),
      (∃ term, (Elaboration.run sequent commands).ending = .proved term) ∨
      (∃ unproved, (Elaboration.run sequent commands).ending = .exhausted unproved) ∧
        (Elaboration.run sequent commands).linesRead = commands.map Text.chomp := by
  refine ⟨?_, exists_unreadableGoal_iff lines, ?_⟩
  · have houtcome := outcome_run lines
    cases hresult : (run lines).result with
    | ok proof =>
        rw [hresult] at houtcome
        cases houtcome with
        | @proved first _ _ hgoal hending =>
            have htyping := Elaboration.typing_of_run hending
            exact ⟨first, rfl, hgoal, Term.infer_of_typing htyping⟩
    | error error =>
        rw [hresult] at houtcome
        cases houtcome with
        | noGoal => exact linesRead_of_endOfInput hresult
        | unfinished _ _ => exact linesRead_of_endOfInput hresult
        | @unreadableGoal first _ _ hgoal => exact ⟨first, rfl, hgoal⟩
  · intro sequent commands
    cases hending : (Elaboration.run sequent commands).ending with
    | proved term => exact Or.inl ⟨term, rfl⟩
    | exhausted unproved =>
        exact Or.inr ⟨⟨unproved, rfl⟩, Elaboration.linesRead_of_exhausted hending⟩

/-! ## Quiet sessions -/

/-- The exchanges of a session, in order. -/
def exchanges : Session → List Exchange
  | .noGoal => []
  | .unreadableGoal _ _ => []
  | .worked _ _ elaboration => elaboration.exchanges

theorem say_of_quiet {settings : Settings} (hverbose : settings.verbose = false) (text : String) :
    settings.say text = "" := by
  simp [Settings.say, hverbose]

theorem closing_of_quiet {settings : Settings} (hverbose : settings.verbose = false)
    (goal : Proposition) (ending : Elaboration.Ending) : settings.closing goal ending = "" := by
  cases ending with
  | exhausted unproved => rfl
  | proved term =>
      simp only [Settings.closing, say_of_quiet hverbose]
      cases term.check .empty goal with
      | ok _ => rfl
      | error error => rfl

/-- A session that neither talks nor echoes shows why tactics failed, and nothing else. -/
theorem display_of_quiet {settings : Settings} (hverbose : settings.verbose = false)
    (hecho : settings.echo = false) (session : Session) :
    session.display settings =
      String.join (session.exchanges.map fun exchange => Display.report exchange.failure) := by
  have hask : ∀ sequent, settings.display.ask sequent = "" := by
    simp [Display.ask, Settings.display, hverbose]
  have hexchange : settings.display.exchange = fun exchange => Display.report exchange.failure := by
    funext exchange
    have hechoed : settings.display.echoed exchange.line = "" := by
      simp [Display.echoed, Settings.display, hecho]
    simp [Display.exchange, hask, hechoed]
  cases session with
  | noGoal => simp [display, Settings.heading, say_of_quiet hverbose, exchanges]
  | unreadableGoal line error =>
      simp [display, Settings.heading, say_of_quiet hverbose, exchanges]
  | worked line goal elaboration =>
      have hending : settings.display.ending elaboration.ending = "" := by
        cases elaboration.ending with
        | proved term => rfl
        | exhausted unproved => exact hask unproved
      simp [display, Settings.heading, say_of_quiet hverbose, closing_of_quiet hverbose, exchanges,
        Display.elaboration, hexchange, hending]

end Sequitur.Session
