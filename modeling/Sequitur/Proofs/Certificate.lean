import Sequitur.CommandLine
import Sequitur.Proofs.Characters
import Sequitur.Proofs.Provability

/-! # Proofs as certificates

Every name in a finished proof is an identifier: names come from the goal,
from introductions and from terms that were read. So what is printed of a
proof can be read and checked again, and a quiet run that ends well leaves
such a text as the last line that it shows.
-/

namespace Sequitur

/-! ## Names in sequents -/

/-- Every hypothesis is named by an identifier and can be written. -/
def Context.Writable (context : Context) : Prop :=
  ∀ binding ∈ context.bindings, isIdentifier binding.1 = true ∧ binding.2.Writable

namespace Context

theorem writable_empty : empty.Writable := by
  simp [Writable, empty]

theorem Writable.extend {context : Context} {name : String} {p : Proposition}
    (hcontext : context.Writable) (hname : isIdentifier name = true) (hp : p.Writable) :
    (context.extend name p).Writable :=
  List.forall_mem_cons.mpr ⟨⟨hname, hp⟩, hcontext⟩

theorem Writable.of_binds {context : Context} {name : String} {p : Proposition}
    (hcontext : context.Writable) (hbinds : context.Binds name p) :
    isIdentifier name = true ∧ p.Writable :=
  hcontext _ hbinds.mem_bindings

end Context

/-- The hypotheses and the goal can be written. -/
structure Sequent.Writable (sequent : Sequent) : Prop where
  context : sequent.context.Writable
  goal : sequent.goal.Writable

/-- Tactics open writable subgoals, with frames that keep terms writable. -/
theorem Sequent.Admits.writable_subgoal {sequent sub : Sequent} {frame : Frame}
    (hstep : sequent.Admits (.subgoal sub frame)) (hsequent : sequent.Writable) :
    sub.Writable ∧ ∀ term : Term, term.Writable → (frame.fill term).Writable := by
  obtain ⟨hcontext, hgoal⟩ := hsequent
  cases hstep with
  | @intro name a b heq hname =>
      rw [heq, Proposition.writable_implies] at hgoal
      refine ⟨⟨hcontext.extend hname hgoal.1, hgoal.2⟩, ?_⟩
      intro term hterm
      exact (Term.writable_lam name a term).mpr ⟨hname, hgoal.1, hterm⟩
  | @elim name a hbinds =>
      obtain ⟨hname, himplies⟩ := hcontext.of_binds hbinds
      rw [Proposition.writable_implies] at himplies
      refine ⟨⟨hcontext, himplies.1⟩, ?_⟩
      intro term hterm
      exact (Term.writable_app (.var name) term).mpr ⟨(Term.writable_var name).mpr hname, hterm⟩

theorem Elaboration.writable_of_run {sequent : Sequent} {lines : List String} {term : Term}
    (hproved : (run sequent lines).ending = .proved term) (hsequent : sequent.Writable) :
    term.Writable := by
  revert hsequent
  refine proved_induction (motive := fun sequent term =>
    sequent.Writable → term.Writable) ?_ ?_ hproved
  · intro sequent term hstep _
    cases hstep with
    | exact hparse _ => exact Term.writable_of_parse hparse
  · intro sequent sub frame term hstep ih hsequent
    obtain ⟨hsub, hfill⟩ := hstep.writable_subgoal hsequent
    exact hfill term (ih hsub)

theorem Session.writable_of_result {lines : List String} {proof : Proof}
    (hresult : (run lines).result = .ok proof) : proof.goal.Writable ∧ proof.term.Writable := by
  have houtcome := outcome_run lines
  rw [hresult] at houtcome
  cases houtcome with
  | proved hgoal hending =>
      have hgoal : proof.goal.Writable := Proposition.writable_of_parse hgoal
      exact ⟨hgoal, Elaboration.writable_of_run hending ⟨Context.writable_empty, hgoal⟩⟩

/-! ## Proofs on one line -/

namespace Proof

/-- There is no colon in the goal, so the last one stands between the term and the goal. -/
theorem splitLast?_format {proof : Proof} (hgoal : proof.goal.Writable) :
    Text.splitLast? " : " proof.format =
      some (proof.term.format .ascii, proof.goal.format .ascii) := by
  have hmade := Proposition.madeOf_render .ascii hgoal false
  exact Text.splitLast?_colon _ (Text.not_mem_of_madeOf hmade (by decide) (by decide))

theorem oneLine_format {proof : Proof} (hgoal : proof.goal.Writable)
    (hterm : proof.term.Writable) : Text.OneLine proof.format.toList := by
  have hgoal : Text.OneLine (proof.goal.format .ascii).toList :=
    Text.oneLine_of_madeOf (Proposition.madeOf_render .ascii hgoal false) (by decide) (by decide)
  have hterm : Text.OneLine (proof.term.format .ascii).toList :=
    Text.oneLine_of_madeOf (Term.madeOf_render .ascii hterm false) (by decide) (by decide)
  have hcolon : Text.OneLine " : ".toList := by simp [Text.OneLine, Text.isLineEnd]
  rw [format, String.toList_append, String.toList_append]
  exact (hterm.append hcolon).append hgoal

/-- A proof that can be read and checked again from what is printed of it. -/
structure ReadsBack (proof : Proof) : Prop where
  goal_names : ∀ name ∈ proof.goal.atoms, isIdentifier name = true
  term_names : ∀ name ∈ proof.term.names, isIdentifier name = true
  /-- In either charset, the goal and one line with the term make up a session that ends with the
  proof. -/
  session : ∀ charset : Charset,
    (Session.run [proof.goal.format charset, "exact " ++ proof.term.format charset]).result =
      .ok proof
  /-- The last colon of the proof on one line divides it into texts that read back as the term and
  the goal. -/
  line : ∃ front back, Text.splitLast? " : " proof.format = some (front, back) ∧
    Term.parse front = .ok proof.term ∧ Proposition.parse back = .ok proof.goal

end Proof

theorem Session.readsBack_of_result {lines : List String} {proof : Proof}
    (hresult : (run lines).result = .ok proof) : proof.ReadsBack := by
  obtain ⟨hgoal, hterm⟩ := writable_of_result hresult
  refine ⟨hgoal, hterm, ?_, ?_⟩
  · exact result_run_exactLine hgoal hterm (typing_of_result hresult)
  · exact ⟨_, _, Proof.splitLast?_format hgoal, Term.parse_format hterm .ascii,
      Proposition.parse_format hgoal .ascii⟩

/-! ## Quiet runs -/

theorem Display.ended_report (failure : Option TacticError) :
    Text.Ended (report failure).toList := by
  cases failure with
  | none => exact Text.ended_nil
  | some error =>
      rw [report, String.toList_append]
      exact Text.ended_append_newline _

theorem Session.ended_display_of_quiet {settings : Settings} (hverbose : settings.verbose = false)
    (hecho : settings.echo = false) (session : Session) :
    Text.Ended (session.display settings).toList := by
  rw [display_of_quiet hverbose hecho]
  apply Text.ended_join
  intro text htext
  obtain ⟨exchange, -, rfl⟩ := List.mem_map.mp htext
  exact Display.ended_report exchange.failure

namespace CommandLine

/-- Lines for the session of a run: lines at the end of the console, or those of a proof file. -/
def Offers (console : Console) (folder : Folder) (lines : List String) : Prop :=
  lines <:+ console.lines ∨
    ∃ name text, folder.read (proofFile name) = .ok text ∧ lines = Text.lines text

/-- The run's session found a proof, and the run shows it on a last line of its own. -/
def Outcome.EndsWithProof (outcome : Outcome) (console : Console) (folder : Folder) : Prop :=
  ∃ (lines : List String) (proof : Proof) (shown : String), Offers console folder lines ∧
    (Session.run lines).result = .ok proof ∧ Text.Ended shown.toList ∧
      outcome.stdout = shown ++ (proof.format ++ "\n")

/-- When its session is over, a run ends well only if a proof was found. -/
theorem result_of_conclude {quiet : Bool} {settings : Session.Settings} {ending : InputEnd}
    {session : Session} {folder : Folder}
    (hstatus : (conclude quiet settings ending session folder).status = .exit 0) :
    ∃ proof, session.result = .ok proof ∧
      (conclude quiet settings ending session folder).stdout =
        session.display settings ++ if quiet then proof.format ++ "\n" else "" := by
  unfold conclude at hstatus ⊢
  cases hresult : session.result with
  | ok proof => exact ⟨proof, rfl, rfl⟩
  | error error =>
      rw [hresult] at hstatus
      cases error with
      | endOfInput => cases ending <;> cases hstatus
      | unreadableGoal error => cases hstatus
      | integrity error => cases hstatus

theorem endsWithProof_of_conclude {settings : Session.Settings}
    (hverbose : settings.verbose = false) (hecho : settings.echo = false) {console : Console}
    {folder : Folder} {lines : List String}
    (hlines : Offers console folder lines) {ending : InputEnd} {after : Folder}
    (hstatus : (conclude true settings ending (Session.run lines) after).status = .exit 0) :
    (conclude true settings ending (Session.run lines) after).EndsWithProof console folder := by
  obtain ⟨proof, hresult, hstdout⟩ := result_of_conclude hstatus
  have hended := Session.ended_display_of_quiet hverbose hecho (Session.run lines)
  exact ⟨lines, proof, _, hlines, hresult, hended, hstdout⟩

theorem endsWithProof_of_perform {options : Options} (hquiet : options.quiet = true) {task : Task}
    {console : Console} {folder : Folder}
    (hstatus : (perform options task console folder).status = .exit 0) :
    (perform options task console folder).EndsWithProof console folder := by
  cases task with
  | load name =>
      simp only [perform, hquiet, Bool.not_true] at hstatus ⊢
      cases hreplay : folder.replay name with
      | error error =>
          rw [hreplay] at hstatus
          cases error <;> cases hstatus
      | ok session =>
          obtain ⟨text, hread, hsession⟩ := Failure.bind_eq_ok.mp hreplay
          obtain rfl := Except.ok.inj hsession
          simp only [hreplay] at hstatus ⊢
          exact endsWithProof_of_conclude rfl rfl (Or.inr ⟨name, text, hread, rfl⟩) hstatus
  | new name =>
      simp only [perform, hquiet, Bool.not_true] at hstatus ⊢
      cases hrecord : folder.record name (.recording false options.charset) console.lines with
      | error error =>
          rw [hrecord] at hstatus
          cases error <;> cases hstatus
      | ok recorded =>
          obtain ⟨after, -, hrecorded⟩ := Failure.bind_eq_ok.mp hrecord
          obtain rfl := Except.ok.inj hrecorded
          simp only [hrecord] at hstatus ⊢
          exact endsWithProof_of_conclude rfl rfl (Or.inl List.suffix_rfl) hstatus

/-! ### Questions in front of a session -/

theorem ended_taskQuestion : Text.Ended taskQuestion.toList :=
  Text.ended_of_getLast? (by decide)

theorem ended_askName {question : String} (hquestion : Text.Ended question.toList)
    (task : String → Task) (lines : List String) :
    Text.Ended (askName question task lines).shown.toList := by
  have hshown : (askName question task lines).shown = taskQuestion ++ question := by
    cases lines <;> rfl
  rw [hshown, String.toList_append]
  exact ended_taskQuestion.append hquestion

theorem ended_ask (lines : List String) : Text.Ended (ask lines).shown.toList := by
  fun_cases ask lines with
  | case1 => exact ended_taskQuestion
  | case2 line rest => exact ended_askName (Text.ended_of_getLast? (by decide)) .load rest
  | case3 line rest => exact ended_askName (Text.ended_of_getLast? (by decide)) .new rest
  | case4 line rest => exact ended_taskQuestion

theorem suffix_of_askName {question : String} {task : String → Task} {lines rest : List String}
    {answer : Task} (hanswer : (askName question task lines).result = .ok (answer, rest)) :
    rest <:+ lines := by
  cases lines with
  | nil => cases hanswer
  | cons name lines =>
      obtain ⟨-, rfl⟩ := Prod.mk.inj (Except.ok.inj hanswer)
      exact List.suffix_cons name lines

theorem suffix_of_ask {lines rest : List String} {answer : Task}
    (hanswer : (ask lines).result = .ok (answer, rest)) : rest <:+ lines := by
  revert hanswer
  fun_cases ask lines with
  | case1 =>
      intro hanswer
      cases hanswer
  | case2 line lines =>
      intro hanswer
      exact (suffix_of_askName hanswer).trans (List.suffix_cons line lines)
  | case3 line lines =>
      intro hanswer
      exact (suffix_of_askName hanswer).trans (List.suffix_cons line lines)
  | case4 line lines =>
      intro hanswer
      cases hanswer

theorem Outcome.EndsWithProof.showing {outcome : Outcome} {console : Console} {folder : Folder}
    {rest : List String}
    (hends : outcome.EndsWithProof { console with lines := rest } folder)
    (hrest : rest <:+ console.lines) {text : String} (htext : Text.Ended text.toList) :
    (outcome.showing text).EndsWithProof console folder := by
  obtain ⟨lines, proof, shown, hlines, hresult, hshown, hstdout⟩ := hends
  refine ⟨lines, proof, text ++ shown, ?_, hresult, ?_, ?_⟩
  · exact hlines.imp_left fun hsuffix => hsuffix.trans hrest
  · rw [String.toList_append]
    exact htext.append hshown
  · rw [Outcome.showing, hstdout, String.append_assoc]

theorem endsWithProof_of_runOptions {options : Options} (hquiet : options.quiet = true)
    {console : Console} {folder : Folder}
    (hstatus : (runOptions options console folder).status = .exit 0) :
    (runOptions options console folder).EndsWithProof console folder := by
  unfold runOptions at hstatus ⊢
  cases htask : options.task? with
  | some task =>
      simp only [htask] at hstatus ⊢
      exact endsWithProof_of_perform hquiet hstatus
  | none =>
      simp only [htask] at hstatus ⊢
      cases hanswer : (ask console.lines).result with
      | ok answer =>
          simp only [hanswer] at hstatus ⊢
          exact (endsWithProof_of_perform hquiet hstatus).showing (suffix_of_ask hanswer)
            (ended_ask console.lines)
      | error error =>
          simp only [hanswer] at hstatus
          cases error with
          | noAnswer =>
              cases hending : console.ending <;>
                simp [hending, outOfInput, Outcome.showing] at hstatus
          | invalid answer => cases hstatus

theorem exists_readsBack_of_exit {arguments : List String} {options : Options} {console : Console}
    {folder : Folder} (hparse : Options.parse arguments = .ok (.run options))
    (hquiet : options.quiet = true)
    (hstatus : (run arguments console folder).status = .exit 0) :
    ∃ (lines : List String) (proof : Proof), Offers console folder lines ∧
      (Session.run lines).result = .ok proof ∧ proof.ReadsBack ∧
      (Text.lines (run arguments console folder).stdout).getLast? = some proof.format := by
  have hrun : run arguments console folder = runOptions options console folder := by
    simp only [run, hparse]
  rw [hrun] at hstatus ⊢
  obtain ⟨lines, proof, shown, hlines, hresult, hshown, hstdout⟩ :=
    endsWithProof_of_runOptions hquiet hstatus
  obtain ⟨hgoal, hterm⟩ := Session.writable_of_result hresult
  refine ⟨lines, proof, hlines, hresult, Session.readsBack_of_result hresult, ?_⟩
  rw [hstdout]
  exact Text.getLast?_lines hshown (Proof.oneLine_format hgoal hterm)

end CommandLine

/-- Whatever its lines were, the proof that a session found reads back: its names are identifiers,
its printed goal and term make up a session with the same proof, and the proof on one line is
divided into both by its last colon. So a quiet run that ends well, whether it recorded or replayed
its session, shows last a line from which its proof can be checked again. Without a session, only a
request for help ends well. -/
theorem finished_proofs_read_back :
    (∀ (lines : List String) (proof : Proof), (Session.run lines).result = .ok proof →
      proof.ReadsBack) ∧
    ∀ (arguments : List String) (console : CommandLine.Console) (folder : Folder),
      (CommandLine.run arguments console folder).status = .exit 0 →
      match CommandLine.Options.parse arguments with
      | .error _ => False
      | .ok .help => (CommandLine.run arguments console folder).stdout = CommandLine.help
      | .ok (.run options) => options.quiet = true →
          ∃ (lines : List String) (proof : Proof), CommandLine.Offers console folder lines ∧
            (Session.run lines).result = .ok proof ∧ proof.ReadsBack ∧
            (Text.lines (CommandLine.run arguments console folder).stdout).getLast? =
              some proof.format := by
  refine ⟨?_, ?_⟩
  · intro lines proof hresult
    exact Session.readsBack_of_result hresult
  · intro arguments console folder hstatus
    rcases hparse : CommandLine.Options.parse arguments with error | (_ | options)
    · simp [CommandLine.run, hparse] at hstatus
    · simp [CommandLine.run, hparse]
    · intro hquiet
      exact CommandLine.exists_readsBack_of_exit hparse hquiet hstatus

/-- A session and a run in each of which a tactic fails; the run answers questions before. -/
theorem finished_proofs_read_back_answered :
    (Session.run ["(A => B) => A => B", "intro f", "intro 1", "intro x'", "elim f",
      "exact x'"]).result =
        .ok ⟨.implies (.implies (.atom "A") (.atom "B")) (.implies (.atom "A") (.atom "B")),
          .lam "f" (.implies (.atom "A") (.atom "B"))
            (.lam "x'" (.atom "A") (.app (.var "f") (.var "x'")))⟩ ∧
    Proof.ReadsBack ⟨.implies (.implies (.atom "A") (.atom "B"))
        (.implies (.atom "A") (.atom "B")),
      .lam "f" (.implies (.atom "A") (.atom "B"))
        (.lam "x'" (.atom "A") (.app (.var "f") (.var "x'")))⟩ ∧
    CommandLine.Options.parse ["--quiet"] = .ok (.run ⟨none, none, false, true⟩) ∧
    (CommandLine.run ["--quiet"] ⟨["n", "p", "T => T", "cut", "intro x", "exact x"], .closed⟩
      .empty).status = .exit 0 ∧
    ∃ (lines : List String) (proof : Proof),
      CommandLine.Offers ⟨["n", "p", "T => T", "cut", "intro x", "exact x"], .closed⟩ .empty
        lines ∧
      (Session.run lines).result = .ok proof ∧ proof.ReadsBack ∧
      (Text.lines (CommandLine.run ["--quiet"]
        ⟨["n", "p", "T => T", "cut", "intro x", "exact x"], .closed⟩ .empty).stdout).getLast? =
          some proof.format := by
  have hresult : (Session.run ["(A => B) => A => B", "intro f", "intro 1", "intro x'", "elim f",
      "exact x'"]).result =
        .ok ⟨.implies (.implies (.atom "A") (.atom "B")) (.implies (.atom "A") (.atom "B")),
          .lam "f" (.implies (.atom "A") (.atom "B"))
            (.lam "x'" (.atom "A") (.app (.var "f") (.var "x'")))⟩ := by
    cbv
  have hparse : CommandLine.Options.parse ["--quiet"] = .ok (.run ⟨none, none, false, true⟩) := by
    cbv
  have hstatus : (CommandLine.run ["--quiet"]
      ⟨["n", "p", "T => T", "cut", "intro x", "exact x"], .closed⟩ .empty).status = .exit 0 := by
    decide +kernel
  have hshown := finished_proofs_read_back.2 _ _ _ hstatus
  simp only [hparse] at hshown
  exact ⟨hresult, finished_proofs_read_back.1 _ _ hresult, hparse, hstatus, hshown trivial⟩

end Sequitur
