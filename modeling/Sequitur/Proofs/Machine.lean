import Sequitur.Proofs.Elaboration
import Sequitur.Proofs.Lines

/-! # A machine for tactics

An elaboration descends into a subgoal and fills the frame of the goal when
it comes back. A machine does the same without descending: it keeps the open
sequent and a stack of frames, takes one line at a time from its tape, and
writes what it logs and shows as it goes. The frames that a descent has still
to fill are the ones on the stack, so both come to the same end by way of the
same texts.
-/

namespace Sequitur

/-- What a machine is about. -/
inductive Machine.Control where
  /-- It works on a sequent. A term for it has to be put into the frames, the top one first. -/
  | working (sequent : Sequent) (stack : List Frame)
  | halted (term : Term)
  deriving DecidableEq

/-- The lines that are not read, what was logged, if there is a log, what was shown, and the failures
of tactics so far. -/
structure Machine.Tape where
  unread : List String
  log : Option String
  shown : String
  failures : List TacticError
  deriving DecidableEq

/-- A machine in operation. -/
structure Machine extends Machine.Tape where
  control : Machine.Control
  deriving DecidableEq

/-- Put a term into the frames of a stack, the top one first. -/
def Frame.fillAll (stack : List Frame) (term : Term) : Term :=
  stack.foldl (fun term frame => frame.fill term) term

namespace Machine

/-- How an elaboration ends that comes to an end where the machine is. -/
def Control.ending : Control → Elaboration.Ending
  | .working sequent _ => .exhausted sequent
  | .halted term => .proved term

/-- What is shown before a line is read. A halted machine reads none. -/
def Control.ask (display : Display) : Control → String
  | .working sequent _ => display.ask sequent
  | .halted _ => ""

/-- Carry out a command: where it leads, what it prints, and its failure. A failure leads nowhere, a
subgoal takes the place of the sequent and its frame is pushed, and a term is put into all frames. -/
def execute (sequent : Sequent) (stack : List Frame) (command : String) :
    Control × String × Option TacticError :=
  match sequent.performLine command with
  | .error error => (.working sequent stack, error.message ++ "\n", some error)
  | .ok (.subgoal sub frame) => (.working sub (frame :: stack), "", none)
  | .ok (.closed term) => (.halted (Frame.fillAll stack term), "", none)

/-- Read one line and carry it out. A machine that has halted, or has no line to read, rests. -/
def step (display : Display) (machine : Machine) : Machine :=
  match machine.control, machine.unread with
  | .working sequent stack, line :: rest =>
      let command := Text.chomp line
      let (control, printed, failure) := execute sequent stack command
      { control := control
        unread := rest
        log := machine.log.map (· ++ (command ++ "\n"))
        shown := machine.shown ++ display.echoed command ++ printed ++ control.ask display
        failures := machine.failures ++ failure.toList }
  | _, _ => machine

/-- A machine that begins to work on a sequent with an empty log and has asked for its first line. -/
def start (display : Display) (sequent : Sequent) (lines : List String) : Machine where
  control := .working sequent []
  unread := lines
  log := some ""
  shown := display.ask sequent
  failures := []

/-- Let the machine take a step for each line there is. -/
def run (display : Display) (machine : Machine) : Machine :=
  (step display)^[machine.unread.length] machine

/-! ## Steps -/

theorem step_of_halted {display : Display} {machine : Machine} {term : Term}
    (hcontrol : machine.control = .halted term) : machine.step display = machine := by
  simp only [step, hcontrol]

theorem step_of_unread_nil {display : Display} {machine : Machine} (hunread : machine.unread = []) :
    machine.step display = machine := by
  cases hcontrol : machine.control with
  | working sequent stack => simp only [step, hcontrol, hunread]
  | halted term => exact step_of_halted hcontrol

theorem run_of_rest {display : Display} {machine : Machine}
    (hrest : machine.step display = machine) : machine.run display = machine :=
  Function.iterate_fixed hrest _

/-- A machine with a line to read goes on from where the command on it leads. -/
theorem run_of_working {display : Display} {sequent : Sequent} {stack : List Frame}
    {line : String} {control : Control} {printed : String} {failure : Option TacticError}
    (hexecute : execute sequent stack (Text.chomp line) = (control, printed, failure))
    (rest : List String) (log : Option String) (shown : String) (failures : List TacticError) :
    run display ⟨⟨line :: rest, log, shown, failures⟩, .working sequent stack⟩ =
      run display ⟨⟨rest, log.map (· ++ (Text.chomp line ++ "\n")),
        shown ++ display.echoed (Text.chomp line) ++ printed ++ control.ask display,
        failures ++ failure.toList⟩, control⟩ := by
  simp only [run, List.length_cons, Function.iterate_succ_apply, step, hexecute]

end Machine

namespace Elaboration

/-- Put the term of an ending into the frames of a stack, the top one first. -/
def Ending.fillAll (stack : List Frame) (ending : Ending) : Ending :=
  stack.foldl (fun ending frame => ending.fill frame) ending

theorem Ending.fillAll_proved (stack : List Frame) (term : Term) :
    (proved term).fillAll stack = .proved (Frame.fillAll stack term) := by
  induction stack generalizing term with
  | nil => rfl
  | cons frame stack ih => exact ih (frame.fill term)

theorem Ending.fillAll_exhausted (stack : List Frame) (sequent : Sequent) :
    (exhausted sequent).fillAll stack = .exhausted sequent := by
  induction stack with
  | nil => rfl
  | cons frame stack ih => exact ih

theorem transcript_after (exchange : Exchange) (rest : Elaboration) :
    (after exchange rest).transcript = exchange.line ++ "\n" ++ rest.transcript :=
  Text.unlines_cons exchange.line rest.linesRead

/-- The failures of tactics, in order. -/
def failures (elaboration : Elaboration) : List TacticError :=
  elaboration.exchanges.filterMap (·.failure)

theorem failures_after (exchange : Exchange) (rest : Elaboration) :
    (after exchange rest).failures = exchange.failure.toList ++ rest.failures := by
  rw [failures, exchanges_after]
  cases hfailure : exchange.failure with
  | none => rw [List.filterMap_cons_none hfailure, Option.toList_none, List.nil_append, failures]
  | some error =>
      rw [List.filterMap_cons_some hfailure, Option.toList_some, List.singleton_append, failures]

end Elaboration

namespace Display

theorem elaboration_after (display : Display) (exchange : Exchange) (rest : Elaboration) :
    display.elaboration (.after exchange rest) =
      display.exchange exchange ++ display.elaboration rest := by
  simp only [elaboration, Elaboration.exchanges_after, Elaboration.ending_after, List.map_cons,
    String.join_cons, String.append_assoc]

theorem ending_fill (display : Display) (frame : Frame) (ending : Elaboration.Ending) :
    display.ending (ending.fill frame) = display.ending ending := by
  cases ending with
  | proved term => rfl
  | exhausted sequent => rfl

/-- What is shown does not tell how deep a subgoal lies. -/
theorem elaboration_within (display : Display) (frame : Frame) (sub : Elaboration) :
    display.elaboration (.within frame sub) = display.elaboration sub := by
  simp only [elaboration, Elaboration.exchanges_within, Elaboration.ending_within, ending_fill]

end Display

namespace Machine

/-! ## Descents and stacks -/

/-- A machine that rests after it has done what an elaboration tells. Before, it had the given tape
and the frames of the goals above on its stack. -/
structure Follows (display : Display) (stack : List Frame) (tape : Tape) (elaboration : Elaboration)
    (machine : Machine) : Prop where
  ending : machine.control.ending = elaboration.ending.fillAll stack
  unread : machine.unread = tape.unread.drop elaboration.exchanges.length
  log : machine.log = tape.log.map (· ++ elaboration.transcript)
  shown : machine.shown = tape.shown ++ display.elaboration elaboration
  failures : machine.failures = tape.failures ++ elaboration.failures
  rests : machine.step display = machine

theorem Follows.after {display : Display} {stack : List Frame} {line shown : String}
    {rest : List String} {log : Option String} {failures : List TacticError} {exchange : Exchange}
    {elaboration : Elaboration} {machine : Machine}
    (hfollows : Follows display stack ⟨rest, log.map (· ++ (exchange.line ++ "\n")),
      shown ++ display.exchange exchange, failures ++ exchange.failure.toList⟩ elaboration machine) :
    Follows display stack ⟨line :: rest, log, shown, failures⟩ (.after exchange elaboration)
      machine where
  ending := hfollows.ending
  unread := hfollows.unread
  log := by
    rw [hfollows.log, Option.map_map]
    simp only [Elaboration.transcript_after, Function.comp_def, String.append_assoc]
  shown := by rw [hfollows.shown, Display.elaboration_after, String.append_assoc]
  failures := by rw [hfollows.failures, Elaboration.failures_after, List.append_assoc]
  rests := hfollows.rests

/-- The frame that an elaboration fills when it comes back is the one on top of the stack. -/
theorem Follows.within {display : Display} {frame : Frame} {stack : List Frame}
    {tape : Tape} {sub : Elaboration} {machine : Machine}
    (hfollows : Follows display (frame :: stack) tape sub machine) :
    Follows display stack tape (.within frame sub) machine where
  ending := hfollows.ending
  unread := hfollows.unread
  log := hfollows.log
  shown := by rw [hfollows.shown, Display.elaboration_within]
  failures := hfollows.failures
  rests := hfollows.rests

/-- From every sequent and every stack on, a machine that has asked for a line does what the
elaboration of the sequent tells. -/
theorem follows_run (display : Display) (sequent : Sequent) (stack : List Frame)
    (lines : List String) (log : Option String) (shown : String) (failures : List TacticError) :
    Follows display stack ⟨lines, log, shown, failures⟩ (Elaboration.run sequent lines)
      (run display
        ⟨⟨lines, log, shown ++ display.ask sequent, failures⟩, .working sequent stack⟩) := by
  fun_induction Elaboration.run sequent lines generalizing stack log shown failures with
  | case1 sequent =>
      rw [run_of_rest (step_of_unread_nil rfl)]
      refine ⟨?_, rfl, ?_, ?_, ?_, step_of_unread_nil rfl⟩
      · exact (Elaboration.Ending.fillAll_exhausted stack sequent).symm
      · simp [Elaboration.transcript, Elaboration.linesRead]
      · simp [Display.elaboration, Display.ending]
      · simp [Elaboration.failures]
  | case2 sequent line rest command error hstep ih =>
      have hexecute : execute sequent stack command =
          (.working sequent stack, error.message ++ "\n", some error) := by
        simp only [execute, hstep]
      rw [run_of_working hexecute]
      apply Follows.after
      have hfollows := ih stack (log.map (· ++ (command ++ "\n")))
        (shown ++ display.exchange ⟨sequent, command, some error⟩) (failures ++ [error])
      simpa only [Display.exchange, Display.report, Control.ask, String.append_assoc,
        Option.toList_some] using hfollows
  | case3 sequent line rest command term hstep =>
      have hexecute : execute sequent stack command =
          (.halted (Frame.fillAll stack term), "", none) := by
        simp only [execute, hstep]
      rw [run_of_working hexecute, run_of_rest (step_of_halted rfl)]
      refine ⟨?_, rfl, ?_, ?_, ?_, step_of_halted rfl⟩
      · exact (Elaboration.Ending.fillAll_proved stack term).symm
      · simp [Elaboration.transcript, Elaboration.linesRead, Text.unlines_cons, command]
      · simp [Display.elaboration, Display.ending, Display.exchange, Display.report, Control.ask,
          String.append_assoc, command]
      · simp [Elaboration.failures]
  | case4 sequent line rest command sub frame hstep ih =>
      have hexecute : execute sequent stack command =
          (.working sub (frame :: stack), "", none) := by
        simp only [execute, hstep]
      rw [run_of_working hexecute]
      apply Follows.after
      apply Follows.within
      have hfollows := ih (frame :: stack) (log.map (· ++ (command ++ "\n")))
        (shown ++ display.exchange ⟨sequent, command, none⟩) failures
      simpa only [Display.exchange, Display.report, Control.ask, String.append_assoc,
        String.append_empty, String.empty_append, Option.toList_none, List.append_nil]
        using hfollows

end Machine

/-- Whatever it starts from, whatever its lines are and however it is shown, an elaboration and the
machine agree: they come to the same term, or to the end of the lines with the same sequent open;
they leave the same lines unread; and they have logged and shown the same texts. The machine rests
then. -/
theorem elaboration_refines_machine (display : Display) (context : Context) (goal : Proposition)
    (lines : List String) :
    let elaboration := Elaboration.run ⟨context, goal⟩ lines
    let machine := (Machine.start display ⟨context, goal⟩ lines).run display
    machine.control.ending = elaboration.ending ∧
      machine.unread = lines.drop elaboration.linesRead.length ∧
      machine.unread.length + elaboration.linesRead.length = lines.length ∧
      machine.log = some elaboration.transcript ∧
      machine.shown = display.elaboration elaboration ∧
      machine.step display = machine := by
  intro elaboration machine
  have hfollows : Machine.Follows display [] ⟨lines, some "", "", []⟩ elaboration machine := by
    have hrun := Machine.follows_run display ⟨context, goal⟩ [] lines (some "") "" []
    rwa [String.empty_append] at hrun
  have hunread : machine.unread = lines.drop elaboration.linesRead.length := by
    rw [hfollows.unread, Elaboration.linesRead, List.length_map]
  refine ⟨hfollows.ending, hunread, ?_, ?_, ?_, hfollows.rests⟩
  · have hlength := Elaboration.linesRead_length_le ⟨context, goal⟩ lines
    rw [hunread, List.length_drop, Nat.sub_add_cancel hlength]
  · rw [hfollows.log, Option.map_some, String.empty_append]
  · rw [hfollows.shown, String.empty_append]

end Sequitur
