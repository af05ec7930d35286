import Sequitur.Archive
import Sequitur.Proofs.Machine
import Sequitur.Proofs.Session

/-! # Settings and sessions in progress

A session in progress takes one line after another. It logs and shows texts
as it goes, and its settings steer what these are: whether the goal is asked
for and logged, what is shown before and after each line, which connectives
are used. None of this reaches the proof. Under all settings a session in
progress goes through the history of one and the same session, so it reads
the same lines, meets the same failures and comes to the same result.
-/

namespace Sequitur.Session

/-- The failures of tactics, in order. -/
def failures (session : Session) : List TacticError :=
  session.exchanges.filterMap (·.failure)

/-! ## Texts of a session -/

theorem Settings.say_append (settings : Settings) (first second : String) :
    settings.say (first ++ second) = settings.say first ++ settings.say second := by
  cases hverbose : settings.verbose with
  | false => simp [Settings.say, hverbose]
  | true => simp [Settings.say, hverbose]

theorem display_worked (settings : Settings) (line : String) (goal : Proposition)
    (elaboration : Elaboration) :
    (worked line goal elaboration).display settings =
      settings.heading ++ settings.say (line ++ "\n") ++ settings.say "Let's prove it.\n" ++
        settings.display.elaboration elaboration ++ settings.closing goal elaboration.ending := by
  have hsaid : settings.say (line ++ "\nLet's prove it.\n") =
      settings.say (line ++ "\n") ++ settings.say "Let's prove it.\n" := by
    rw [← settings.say_append, String.append_assoc]
    rfl
  rw [display, hsaid, ← String.append_assoc]

theorem transcript_noGoal (settings : Settings) : noGoal.transcript settings = "" := by
  cases hinteractive : settings.interactive with
  | false => simp [transcript, hinteractive, tacticLines]
  | true => simp [transcript, hinteractive, linesRead, goalLine?, tacticLines]

theorem transcript_worked (settings : Settings) (line : String) (goal : Proposition)
    (elaboration : Elaboration) :
    (worked line goal elaboration).transcript settings =
      Text.unlines (if settings.interactive then [line] else []) ++ elaboration.transcript := by
  cases hinteractive : settings.interactive with
  | false => simp [transcript, hinteractive, tacticLines, Elaboration.transcript]
  | true =>
      simp [transcript, hinteractive, linesRead, goalLine?, tacticLines, Elaboration.transcript,
        Text.unlines_cons]

theorem join_reports (exchanges : List Exchange) :
    String.join (exchanges.map fun exchange => Display.report exchange.failure) =
      String.join ((exchanges.filterMap (·.failure)).map fun error => error.message ++ "\n") := by
  induction exchanges with
  | nil => rfl
  | cons exchange exchanges ih =>
      rw [List.map_cons, String.join_cons, ih]
      cases hfailure : exchange.failure with
      | none => rw [List.filterMap_cons_none hfailure, Display.report, String.empty_append]
      | some error =>
          rw [List.filterMap_cons_some hfailure, List.map_cons, String.join_cons, Display.report]

/-! ## Sessions in progress -/

/-- A session in progress. -/
inductive Progress where
  /-- It has asked for its goal. -/
  | asking (tape : Machine.Tape)
  /-- A machine works on the goal. -/
  | working (goal : Proposition) (machine : Machine)
  | over (result : Except SessionError Proof) (tape : Machine.Tape)

namespace Progress

/-- What a session has left to read, and what it has written. -/
def tape : Progress → Machine.Tape
  | .asking tape => tape
  | .working _ machine => machine.toTape
  | .over _ tape => tape

/-- The lines that are not read. -/
def unread (progress : Progress) : List String :=
  progress.tape.unread

/-- What was logged, if there is a log. -/
def log (progress : Progress) : Option String :=
  progress.tape.log

/-- What was shown. -/
def shown (progress : Progress) : String :=
  progress.tape.shown

/-- The failures of tactics so far. -/
def failures (progress : Progress) : List TacticError :=
  progress.tape.failures

/-- The result of a session that goes no further. Unless it is over, its input is. -/
def result : Progress → Except SessionError Proof
  | .over result _ => result
  | _ => .error .endOfInput

/-- A session that has asked for its goal, with an empty log or without one. -/
def start (settings : Settings) (logs : Bool) (lines : List String) : Progress :=
  .asking ⟨lines, if logs then some "" else none, settings.heading, []⟩

/-- Take a line for the goal. A session that does not ask for its goal does not log it. -/
def hear (settings : Settings) (tape : Machine.Tape) (command : String) (rest : List String) :
    Machine.Tape :=
  { tape with
    unread := rest
    log := if settings.interactive then tape.log.map (· ++ (command ++ "\n")) else tape.log
    shown := tape.shown ++ settings.say (command ++ "\n") }

/-- Read a goal and set a machine to work on it. -/
def takeUp (settings : Settings) (tape : Machine.Tape) (command : String) : Progress :=
  match Proposition.parse command with
  | .error error => .over (.error (.unreadableGoal error)) tape
  | .ok goal =>
      .working goal
        { tape with
          shown := tape.shown ++ settings.say "Let's prove it.\n" ++
            settings.display.ask ⟨.empty, goal⟩
          control := .working ⟨.empty, goal⟩ [] }

/-- Go on with a machine. If it has halted, its term is checked and the session is over. -/
def ofMachine (settings : Settings) (goal : Proposition) (machine : Machine) : Progress :=
  match machine.control with
  | .working _ _ => .working goal machine
  | .halted term =>
      .over (verdict goal (.proved term))
        { machine.toTape with shown := machine.shown ++ settings.closing goal (.proved term) }

/-- Take one line. A session that is over, or has no line to read, rests. -/
def step (settings : Settings) : Progress → Progress
  | .asking tape =>
      match tape.unread with
      | [] => .asking tape
      | line :: rest => takeUp settings (hear settings tape (Text.chomp line) rest) (Text.chomp line)
  | .working goal machine => ofMachine settings goal (machine.step settings.display)
  | .over result tape => .over result tape

/-- Take a step for each line there is. -/
def proceed (settings : Settings) (progress : Progress) : Progress :=
  (step settings)^[progress.unread.length] progress

/-! ## The machine of a session in progress -/

section Machine

variable (settings : Settings) (goal : Proposition) (machine : Machine)

/-- A session writes what its machine writes, and the check of a term once the machine has
halted. -/
theorem tape_ofMachine :
    (ofMachine settings goal machine).tape =
      { machine.toTape with
        shown := machine.shown ++ settings.closing goal machine.control.ending } := by
  cases hcontrol : machine.control with
  | working sequent stack =>
      simp only [ofMachine, hcontrol, tape, Machine.Control.ending, Settings.closing,
        String.append_empty]
  | halted term => simp only [ofMachine, hcontrol, tape, Machine.Control.ending]

theorem result_ofMachine :
    (ofMachine settings goal machine).result = verdict goal machine.control.ending := by
  cases hcontrol : machine.control with
  | working sequent stack =>
      simp only [result, ofMachine, hcontrol, Machine.Control.ending, verdict]
  | halted term => simp only [result, ofMachine, hcontrol, Machine.Control.ending]

/-- A session takes the steps of its machine. -/
theorem step_ofMachine :
    (ofMachine settings goal machine).step settings =
      ofMachine settings goal (machine.step settings.display) := by
  cases hcontrol : machine.control with
  | working sequent stack => simp only [ofMachine, hcontrol, step]
  | halted term =>
      rw [Machine.step_of_halted hcontrol]
      simp only [ofMachine, hcontrol, step]

theorem proceed_ofMachine :
    (ofMachine settings goal machine).proceed settings =
      ofMachine settings goal (machine.run settings.display) := by
  have hsteps : Function.Semiconj (ofMachine settings goal) (Machine.step settings.display)
      (step settings) :=
    fun machine => (step_ofMachine settings goal machine).symm
  rw [proceed, unread, tape_ofMachine, Machine.run]
  exact (hsteps.iterate_right machine.unread.length machine).symm

end Machine

/-! ## The history of a session in progress -/

/-- A session in progress that rests after it has done what a session over the given lines tells,
from the question for the goal on. -/
structure Tells (settings : Settings) (logs : Bool) (lines : List String) (session : Session)
    (progress : Progress) : Prop where
  result : progress.result = session.result
  unread : progress.unread = lines.drop session.linesRead.length
  log : progress.log = if logs then some (session.transcript settings) else none
  shown : progress.shown = session.display settings
  failures : progress.failures = session.failures
  rests : progress.step settings = progress

theorem proceed_of_rest {settings : Settings} {progress : Progress}
    (hrest : progress.step settings = progress) : progress.proceed settings = progress :=
  Function.iterate_fixed hrest _

/-- The tape of a session that has heard its goal and nothing else. -/
def heard (settings : Settings) (logs : Bool) (line : String) (rest : List String) : Machine.Tape :=
  hear settings (start settings logs []).tape line rest

theorem log_heard (settings : Settings) (logs : Bool) (line : String) (rest : List String) :
    (heard settings logs line rest).log =
      if logs then some (Text.unlines (if settings.interactive then [line] else [])) else none := by
  cases logs with
  | false => simp [heard, hear, start, tape]
  | true =>
      cases hinteractive : settings.interactive with
      | false => simp [heard, hear, start, tape, hinteractive]
      | true => simp [heard, hear, start, tape, hinteractive, Text.unlines_cons]

/-- The first line is heard as the goal. -/
theorem proceed_start (settings : Settings) (logs : Bool) (first : String) (rest : List String)
    {progress : Progress}
    (htakesUp : takeUp settings (heard settings logs (Text.chomp first) rest) (Text.chomp first) =
      progress)
    (hunread : progress.unread = rest) :
    (start settings logs (first :: rest)).proceed settings = progress.proceed settings := by
  have hstep : (start settings logs (first :: rest)).step settings = progress := htakesUp
  have hlength : (start settings logs (first :: rest)).unread.length = rest.length + 1 := rfl
  rw [proceed, hlength, Function.iterate_succ_apply, hstep, proceed, hunread]

/-- The tape of a session that has read its goal and says so. -/
def announced (settings : Settings) (tape : Machine.Tape) : Machine.Tape :=
  { tape with shown := tape.shown ++ settings.say "Let's prove it.\n" }

/-- If the machine of a session follows the elaboration of the goal, the session in progress does
what the session tells. -/
theorem tells_ofMachine {settings : Settings} {logs : Bool} {line first : String}
    {rest : List String} {goal : Proposition} {elaboration : Elaboration} {machine : Machine}
    (hfollows : machine.Follows settings.display []
      (announced settings (heard settings logs line rest)) elaboration) :
    Tells settings logs (first :: rest) (worked line goal elaboration)
      (ofMachine settings goal machine) := by
  have hending : machine.control.ending = elaboration.ending := hfollows.ending
  refine ⟨?_, ?_, ?_, ?_, ?_, ?_⟩
  · rw [result_ofMachine, hending]
    rfl
  · rw [unread, tape_ofMachine, hfollows.unread]
    simp [announced, heard, hear, linesRead, goalLine?, tacticLines, Elaboration.linesRead]
  · rw [log, tape_ofMachine, hfollows.log, announced, log_heard, transcript_worked]
    cases logs with
    | false => rfl
    | true => rfl
  · rw [shown, tape_ofMachine, hfollows.shown, hending, display_worked]
    rfl
  · rw [failures, tape_ofMachine, hfollows.failures]
    rfl
  · rw [step_ofMachine, hfollows.rests]

/-- Whatever its settings are, and whether or not it keeps a log, a session in progress does what
the session over its lines tells. -/
theorem tells_run (settings : Settings) (logs : Bool) (lines : List String) :
    Tells settings logs lines (Session.run lines)
      ((start settings logs lines).proceed settings) := by
  cases lines with
  | nil =>
      rw [proceed_of_rest rfl]
      have hnothing : (Session.run []).transcript settings = "" := transcript_noGoal settings
      refine ⟨rfl, rfl, ?_, rfl, rfl, rfl⟩
      rw [hnothing]
      rfl
  | cons first rest =>
      cases hgoal : Proposition.parse (Text.chomp first) with
      | error error =>
          have htakesUp : takeUp settings (heard settings logs (Text.chomp first) rest)
              (Text.chomp first) = .over (.error (.unreadableGoal error))
                (heard settings logs (Text.chomp first) rest) := by
            simp only [takeUp, hgoal]
          rw [proceed_start settings logs first rest htakesUp rfl, proceed_of_rest rfl,
            run_cons_of_error hgoal]
          exact ⟨rfl, rfl, log_heard settings logs _ rest, rfl, rfl, rfl⟩
      | ok goal =>
          let tape := announced settings (heard settings logs (Text.chomp first) rest)
          have htakesUp : takeUp settings (heard settings logs (Text.chomp first) rest)
              (Text.chomp first) = ofMachine settings goal
                ⟨{ tape with shown := tape.shown ++ settings.display.ask ⟨.empty, goal⟩ },
                  .working ⟨.empty, goal⟩ []⟩ := by
            simp only [takeUp, hgoal, ofMachine, tape, announced]
          have hfollows := Machine.follows_run settings.display ⟨.empty, goal⟩ [] rest tape.log
            tape.shown []
          rw [proceed_start settings logs first rest htakesUp rfl, run_cons_of_ok hgoal,
            proceed_ofMachine]
          exact tells_ofMachine hfollows

end Progress

/-! ## Two runs -/

/-- Over the same lines, two sessions in progress with whatever settings, each with or without a
log, leave the same lines unread, come to the same result and meet the same failures, and if both
ask for their goal and keep a log, the logs are the same. A session that neither talks nor echoes
shows the messages of its failures, in order, and nothing else. Each session does what its lines
alone settle, down to the last text that it logs and shows. -/
theorem settings_do_not_interfere (lines : List String) (settings others : Settings)
    (logs otherLogs : Bool) :
    let one := (Progress.start settings logs lines).proceed settings
    let other := (Progress.start others otherLogs lines).proceed others
    (one.unread = other.unread ∧ one.result = other.result ∧ one.failures = other.failures) ∧
      (settings.interactive = true → others.interactive = true → logs = true → otherLogs = true →
        ∃ text, one.log = some text ∧ other.log = some text) ∧
      (settings.verbose = false → settings.echo = false →
        one.shown = String.join (one.failures.map fun error => error.message ++ "\n")) ∧
      Progress.Tells settings logs lines (run lines) one := by
  intro one other
  have hone : Progress.Tells settings logs lines (run lines) one :=
    Progress.tells_run settings logs lines
  have hother : Progress.Tells others otherLogs lines (run lines) other :=
    Progress.tells_run others otherLogs lines
  refine ⟨⟨?_, ?_, ?_⟩, ?_, ?_, hone⟩
  · rw [hone.unread, hother.unread]
  · rw [hone.result, hother.result]
  · rw [hone.failures, hother.failures]
  · intro hinteractive hinteractive' hlogs hlogs'
    refine ⟨Text.unlines (run lines).linesRead, ?_, ?_⟩
    · rw [hone.log, if_pos hlogs, transcript, if_pos hinteractive]
    · rw [hother.log, if_pos hlogs', transcript, if_pos hinteractive']
  · intro hverbose hecho
    rw [hone.shown, hone.failures, display_of_quiet hverbose hecho, join_reports]
    rfl

/-- A quiet recording of a session with a failure and an unread line, and one that talks. -/
theorem settings_do_not_interfere_cut :
    ((Progress.start (.recording false .ascii) true
        ["T => T\r\n", "cut", "intro x", "exact x", "cut"]).proceed
        (.recording false .ascii)).shown = "The cut tactic is not implemented.\n" ∧
    ((Progress.start (.recording true .unicode) true
        ["T => T\r\n", "cut", "intro x", "exact x", "cut"]).proceed
        (.recording true .unicode)).unread = ["cut"] ∧
    ((Progress.start (.recording true .unicode) true
        ["T => T\r\n", "cut", "intro x", "exact x", "cut"]).proceed
        (.recording true .unicode)).result =
      .ok ⟨.implies .truth .truth, .lam "x" .truth (.var "x")⟩ ∧
    ∃ text,
      ((Progress.start (.recording false .ascii) true
        ["T => T\r\n", "cut", "intro x", "exact x", "cut"]).proceed
        (.recording false .ascii)).log = some text ∧
      ((Progress.start (.recording true .unicode) true
        ["T => T\r\n", "cut", "intro x", "exact x", "cut"]).proceed
        (.recording true .unicode)).log = some text := by
  obtain ⟨⟨hunread, hresult, -⟩, hlog, hshown, htells⟩ := settings_do_not_interfere
    ["T => T\r\n", "cut", "intro x", "exact x", "cut"] (.recording false .ascii)
    (.recording true .unicode) true true
  have hfailures : (run ["T => T\r\n", "cut", "intro x", "exact x", "cut"]).failures =
      [.cutUnavailable] := by
    decide +kernel
  have hread : (run ["T => T\r\n", "cut", "intro x", "exact x", "cut"]).linesRead.length = 4 := by
    decide +kernel
  have hproof : (run ["T => T\r\n", "cut", "intro x", "exact x", "cut"]).result =
      .ok ⟨.implies .truth .truth, .lam "x" .truth (.var "x")⟩ := by
    cbv
  refine ⟨?_, ?_, ?_, hlog rfl rfl rfl rfl⟩
  · rw [hshown rfl rfl, htells.failures, hfailures]
    rfl
  · rw [← hunread, htells.unread, hread]
    rfl
  · rw [← hresult, htells.result, hproof]

end Sequitur.Session
