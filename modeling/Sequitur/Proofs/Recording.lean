import Sequitur.CommandLine
import Sequitur.Proofs.Replay

/-! # Runs that record and runs that load

A quiet run shows why tactics failed and how its session ended, and nothing
that depends on where its lines come from. The proof file of a run that records
replays the session unless a carriage return stands within a line, which is one
line of standard input and two of the file. So a run that loads the proof cannot
be told from the one that recorded it. Both options take the same arguments as
names, but a refusal tells which option refuses.
-/

namespace Sequitur.CommandLine

/-! ## Names as arguments -/

theorem eq_of_classifyOther_eq_plain {text name : String}
    (hplain : classifyOther text = .plain name) : text = name := by
  unfold classifyOther at hplain
  split at hplain
  next => exact Argument.plain.inj hplain
  next => contradiction

theorem eq_of_classify_eq_plain {text name : String}
    (hplain : classify text = .ok (.plain name)) : text = name := by
  unfold classify at hplain
  split at hplain
  next => cases hplain
  next =>
    split at hplain
    next =>
      unfold classifyLong at hplain
      split at hplain
      next => exact eq_of_classifyOther_eq_plain (Except.ok.inj hplain)
      next => cases hplain
      next => cases hplain
    next => cases hplain
    next => cases hplain
    next => exact eq_of_classifyOther_eq_plain (Except.ok.inj hplain)
    next => exact Argument.plain.inj (Except.ok.inj hplain)

theorem classifyAll_cons {text : String} (hne : text ≠ "--") (rest : List String) :
    classifyAll (text :: rest) = do
      let argument ← classify text
      let arguments ← classifyAll rest
      return argument :: arguments := by
  rw [classifyAll]
  exact hne

theorem classify_long (switch : Switch) : classify switch.long = .ok (.switch switch none) := by
  cases switch <;> rfl

theorem classifyAll_named (switch : Switch) {name : String} (hne : name ≠ "--") :
    classifyAll [switch.long, name, "--quiet"] = do
      let argument ← classify name
      return [.switch switch none, argument, .switch .quiet none] := by
  have hlong : switch.long ≠ "--" := by cases switch <;> decide
  rw [classifyAll_cons hlong, classify_long, classifyAll_cons hne]
  cases classify name <;> rfl

theorem takesName_iff (switch : Switch) :
    switch.takesName = true ↔ switch = .load ∨ switch = .new := by
  cases switch <;> simp [Switch.takesName]

/-- The options that give a name to one of the options that take one, and ask for a quiet run. -/
def Options.named (switch : Switch) (name : String) : Options where
  load := if switch = .load then some name else none
  new := if switch = .new then some name else none
  unicode := false
  quiet := true

theorem collect_of_plain {switch : Switch} (htakes : switch.takesName = true) {name : String}
    (hne : name ≠ "--") :
    Options.initial.collect [] [.switch switch none, .plain name, .switch .quiet none] =
      .ok (.run (.named switch name)) := by
  have hname : Options.nameOf name = name := if_neg hne
  rcases (takesName_iff switch).mp htakes with rfl | rfl
  · change Except.ok (Request.run ⟨some (Options.nameOf name), none, false, true⟩) = _
    rw [hname]
    rfl
  · change Except.ok (Request.run ⟨none, some (Options.nameOf name), false, true⟩) = _
    rw [hname]
    rfl

theorem collect_of_not_plain {switch : Switch} (htakes : switch.takesName = true)
    {argument : Argument} (hplain : ∀ name, argument ≠ .plain name) (rest : List Argument) :
    Options.initial.collect [] (.switch switch none :: argument :: rest) =
      .error (.missingName switch) := by
  cases argument with
  | plain name => exact absurd rfl (hplain name)
  | switch other value => rcases (takesName_iff switch).mp htakes with rfl | rfl <;> rfl
  | cluster letters => rcases (takesName_iff switch).mp htakes with rfl | rfl <;> rfl
  | unknown text => rcases (takesName_iff switch).mp htakes with rfl | rfl <;> rfl
  | separator => rcases (takesName_iff switch).mp htakes with rfl | rfl <;> rfl

theorem parse_of_plain (switch : Switch) (htakes : switch.takesName = true) {name : String}
    (hplain : classify name = .ok (.plain name)) :
    Options.parse [switch.long, name, "--quiet"] = .ok (.run (.named switch name)) := by
  have hne : name ≠ "--" := by
    rintro rfl
    exact absurd hplain (by decide +kernel)
  rw [Options.parse, classifyAll_named switch hne, hplain]
  exact collect_of_plain htakes hne

/-- What is no name by itself is no name for an option either. -/
theorem exists_parse_eq_error (switch : Switch) (htakes : switch.takesName = true) {name : String}
    (hplain : classify name ≠ .ok (.plain name)) :
    ∃ error, Options.parse [switch.long, name, "--quiet"] = .error error := by
  by_cases hne : name = "--"
  · subst hne
    have hall : classifyAll [switch.long, "--", "--quiet"] =
        .ok [.switch switch none, .separator, .plain "--quiet"] := by
      rcases (takesName_iff switch).mp htakes with rfl | rfl <;> rfl
    rw [Options.parse, hall]
    exact ⟨_, collect_of_not_plain htakes (by simp) _⟩
  · rw [Options.parse, classifyAll_named switch hne]
    cases hname : classify name with
    | error error => exact ⟨error, rfl⟩
    | ok argument =>
        refine ⟨_, collect_of_not_plain htakes ?_ _⟩
        rintro text rfl
        obtain rfl := eq_of_classify_eq_plain hname
        exact hplain hname

/-! ## Runs -/

theorem given?_none : given? none = none :=
  rfl

theorem given?_some {name : String} (hname : name ≠ "") : given? (some name) = some name := by
  unfold given?
  split
  next heq => exact absurd (Option.some.inj heq) hname
  next => rfl

/-- What a run has to do with the name that one of the options takes. -/
def Switch.task (switch : Switch) (name : String) : Task :=
  if switch = .load then .load name else .new name

theorem task?_named (switch : Switch) (htakes : switch.takesName = true) {name : String}
    (hname : name ≠ "") : (Options.named switch name).task? = some (switch.task name) := by
  rcases (takesName_iff switch).mp htakes with rfl | rfl
  · simp [Options.task?, Options.named, Switch.task, given?_some hname]
  · simp [Options.task?, Options.named, Switch.task, given?_some hname, given?_none]

theorem run_of_plain (switch : Switch) (htakes : switch.takesName = true) {name : String}
    (hname : name ≠ "") (hplain : classify name = .ok (.plain name)) (console : Console)
    (folder : Folder) :
    run [switch.long, name, "--quiet"] console folder =
      perform (.named switch name) (switch.task name) console folder := by
  simp only [run, parse_of_plain switch htakes hplain, runOptions, task?_named switch htakes hname]

/-- A run whose option refuses its name shows nothing but the error, and changes nothing. -/
theorem run_of_not_plain (switch : Switch) (htakes : switch.takesName = true) {name : String}
    (hplain : classify name ≠ .ok (.plain name)) (console : Console) (folder : Folder) :
    ∃ error : UsageError, run [switch.long, name, "--quiet"] console folder =
      ⟨.exit 2, "", error.report, folder⟩ := by
  obtain ⟨error, hparse⟩ := exists_parse_eq_error switch htakes hplain
  exact ⟨error, by simp only [run, hparse]⟩

theorem folder_conclude (quiet : Bool) (settings : Session.Settings) (ending : InputEnd)
    (session : Session) (folder : Folder) :
    (conclude quiet settings ending session folder).folder = folder := by
  unfold conclude
  cases session.result with
  | ok proof => rfl
  | error error =>
      cases error with
      | endOfInput => cases ending <;> rfl
      | unreadableGoal error => rfl
      | integrity error => rfl

/-- Without talk and echo, a recorded session and a replayed one look the same. -/
theorem display_replaying (session : Session) (charset : Charset) :
    session.display (.replaying false charset) = session.display (.recording false charset) := by
  rw [Session.display_of_quiet rfl rfl, Session.display_of_quiet rfl rfl]

theorem perform_new_of_record {options : Options} {name : String} {console : Console}
    {folder after : Folder} {session : Session}
    (hrecord : folder.record name (.recording (!options.quiet) options.charset) console.lines =
      .ok (session, after)) :
    perform options (.new name) console folder =
      conclude options.quiet (.recording (!options.quiet) options.charset) console.ending session
        after := by
  simp only [perform, hrecord]

theorem perform_load_of_replay {options : Options} {name : String} {folder : Folder}
    {session : Session} (hreplay : folder.replay name = .ok session) (console : Console) :
    perform options (.load name) console folder =
      conclude options.quiet (.replaying (!options.quiet) options.charset) .closed session
        folder := by
  simp only [perform, hreplay]

/-- A run that loads the proof which a run recorded leaves behind what that run left behind. -/
theorem load_recorded {name : String} (hname : name ≠ "")
    (hplain : classify name = .ok (.plain name)) {folder written : Folder} {before : String}
    (hopen : folder.write (proofFile name) before = .ok written) {lines : List String}
    (hone : ∀ line ∈ (Session.run lines).linesRead, Text.OneLine line.toList) (other : Console) :
    run ["--load", name, "--quiet"] other
        (run ["--new", name, "--quiet"] ⟨lines, .closed⟩ folder).folder =
      run ["--new", name, "--quiet"] ⟨lines, .closed⟩ folder := by
  obtain ⟨after, hwrite⟩ := Folder.exists_write_eq_ok hopen
    ((Session.run lines).transcript (.recording false .ascii))
  have hrecord : folder.record name (.recording false .ascii) lines =
      .ok (Session.run lines, after) :=
    Folder.record_eq_ok_iff.mpr ⟨rfl, hwrite⟩
  have hreplay : after.replay name = .ok (Session.run lines) := by
    rw [Folder.replay_of_record hrecord, Session.run_transcript rfl hone]
  have hnew : run ["--new", name, "--quiet"] ⟨lines, .closed⟩ folder =
      conclude true (.recording false .ascii) .closed (Session.run lines) after :=
    (run_of_plain .new rfl hname hplain _ folder).trans (perform_new_of_record hrecord)
  have hload : run ["--load", name, "--quiet"] other after =
      conclude true (.replaying false .ascii) .closed (Session.run lines) after :=
    (run_of_plain .load rfl hname hplain other after).trans (perform_load_of_replay hreplay other)
  rw [hnew, folder_conclude, hload, conclude, conclude, display_replaying]

/-- Two pairs of runs that differ. A name that can be written to, but is spelled like an option, is
refused by both runs, each with the option that refuses in its error. A carriage return within the
only line of standard input, from which nothing is proved, divides the proof file into two lines,
from which the goal is proved. -/
theorem loaded_run_may_differ :
    ("-x" ≠ "" ∧ (∃ written, Folder.empty.write (proofFile "-x") "" = .ok written) ∧
      let recorded := run ["--new", "-x", "--quiet"] (.ofText "" .closed) .empty
      let loaded := run ["--load", "-x", "--quiet"] ⟨[], .closed⟩ recorded.folder
      recorded.stderr = usage ++ "curry: error: argument --new: expected one argument\n" ∧
        loaded.stderr = usage ++ "curry: error: argument --load: expected one argument\n" ∧
        loaded.stderr ≠ recorded.stderr) ∧
    ("p" ≠ "" ∧ (∃ written, Folder.empty.write (proofFile "p") "" = .ok written) ∧
      let recorded := run ["--new", "p", "--quiet"] (.ofText "T\rexact ()" .closed) .empty
      let loaded := run ["--load", "p", "--quiet"] ⟨[], .closed⟩ recorded.folder
      recorded.status = .exit 1 ∧
        recorded.folder.read "p.proof" = .ok "T\rexact ()\n" ∧
        loaded.status = .exit 0 ∧ loaded.stdout = "() : T\n") := by
  refine ⟨⟨by decide, ⟨⟨[(["-x.proof"], .file "")], []⟩, rfl⟩, ?_, ?_, ?_⟩,
    ⟨by decide, ⟨⟨[(["p.proof"], .file "")], []⟩, rfl⟩, ?_, ?_, ?_, ?_⟩⟩
  · decide +kernel
  · decide +kernel
  · decide +kernel
  · decide +kernel
  · decide +kernel
  · decide +kernel
  · decide +kernel

/-- Whatever text standard input holds, as long as no carriage return stands within a line that the
session reads, a quiet run that records a proof under a name that can be written to, and a quiet run
that loads it from what the first one left, have the same status and show the same on standard
output. They are the same in all, standard error and files included, if the options take the name.
All other names are refused by both runs, each with an error of its own and nothing else. -/
theorem recorded_run_loads (text name : String) (hname : name ≠ "") (folder : Folder)
    (hopen : ∃ written, folder.write (proofFile name) "" = .ok written)
    (hreturns : ∀ line ∈ (Session.run (Text.inputLines text)).linesRead, '\r' ∉ line.toList)
    (other : Console) :
    let recorded := run ["--new", name, "--quiet"] (.ofText text .closed) folder
    let loaded := run ["--load", name, "--quiet"] other recorded.folder
    loaded.status = recorded.status ∧ loaded.stdout = recorded.stdout ∧
      (classify name = .ok (.plain name) →
        loaded.stderr = recorded.stderr ∧ loaded.folder = recorded.folder) ∧
      (classify name ≠ .ok (.plain name) → ∃ newError loadError : UsageError,
        recorded = ⟨.exit 2, "", newError.report, folder⟩ ∧
        loaded = ⟨.exit 2, "", loadError.report, folder⟩) := by
  intro recorded loaded
  by_cases hplain : classify name = .ok (.plain name)
  · obtain ⟨written, hwrite⟩ := hopen
    have hsame : loaded = recorded := by
      apply load_recorded hname hplain hwrite
      intro line hline
      exact Session.oneLine_of_mem_linesRead hline (hreturns line hline)
    rw [hsame]
    exact ⟨rfl, rfl, fun _ => ⟨rfl, rfl⟩, fun hrefused => absurd hplain hrefused⟩
  · obtain ⟨newError, hnew⟩ := run_of_not_plain .new rfl hplain (.ofText text .closed) folder
    obtain ⟨loadError, hload⟩ := run_of_not_plain .load rfl hplain other recorded.folder
    have hrecorded : recorded = ⟨.exit 2, "", newError.report, folder⟩ := hnew
    have hfolder : recorded.folder = folder := by rw [hrecorded]
    have hloaded : loaded = ⟨.exit 2, "", loadError.report, recorded.folder⟩ := hload
    rw [hfolder] at hloaded
    refine ⟨?_, ?_, fun htaken => absurd htaken hplain, fun _ => ?_⟩
    · rw [hloaded, hrecorded]
    · rw [hloaded, hrecorded]
    · exact ⟨newError, loadError, hrecorded, hloaded⟩

/-- Two kinds of line ends, a failing tactic and an unended last line, with a carriage return within
a line that is not read any more, in a folder below the root with a file to replace. -/
theorem recorded_run_loads_mixed :
    "-1" ≠ "" ∧ classify "-1" = .ok (.plain "-1") ∧
      (∃ written, Folder.write ⟨[(["home", "-1.proof"], .file "A")], ["home"]⟩ (proofFile "-1") "" =
        .ok written) ∧
      (Session.run (Text.inputLines "T => T\r\ncut\nintro x\r\nexact x\ncu\rt")).linesRead =
        ["T => T", "cut", "intro x", "exact x"] ∧
      ∃ recorded loaded : Outcome,
        recorded = run ["--new", "-1", "--quiet"]
          (.ofText "T => T\r\ncut\nintro x\r\nexact x\ncu\rt" .closed)
          ⟨[(["home", "-1.proof"], .file "A")], ["home"]⟩ ∧
        loaded = run ["--load", "-1", "--quiet"] ⟨[], .interrupted⟩ recorded.folder ∧
        recorded.status = .exit 0 ∧
        recorded.stdout = "The cut tactic is not implemented.\nfun (x : T) -> x : T => T\n" ∧
        loaded.status = .exit 0 ∧
        loaded.stdout = "The cut tactic is not implemented.\nfun (x : T) -> x : T => T\n" ∧
        loaded.stderr = recorded.stderr := by
  have hplain : classify "-1" = .ok (.plain "-1") := by decide +kernel
  have hopen : ∃ written, Folder.write ⟨[(["home", "-1.proof"], .file "A")], ["home"]⟩
      (proofFile "-1") "" = .ok written :=
    ⟨⟨[(["home", "-1.proof"], .file "")], ["home"]⟩, rfl⟩
  have hread : (Session.run (Text.inputLines
      "T => T\r\ncut\nintro x\r\nexact x\ncu\rt")).linesRead =
        ["T => T", "cut", "intro x", "exact x"] := by
    decide +kernel
  have hstatus : (run ["--new", "-1", "--quiet"]
      (.ofText "T => T\r\ncut\nintro x\r\nexact x\ncu\rt" .closed)
      ⟨[(["home", "-1.proof"], .file "A")], ["home"]⟩).status = .exit 0 := by
    decide +kernel
  have hstdout : (run ["--new", "-1", "--quiet"]
      (.ofText "T => T\r\ncut\nintro x\r\nexact x\ncu\rt" .closed)
      ⟨[(["home", "-1.proof"], .file "A")], ["home"]⟩).stdout =
        "The cut tactic is not implemented.\nfun (x : T) -> x : T => T\n" := by
    decide +kernel
  obtain ⟨hsame, hshown, hreported, -⟩ := recorded_run_loads _ "-1" (by decide) _ hopen
    (by rw [hread]; simp) ⟨[], .interrupted⟩
  exact ⟨by decide, hplain, hopen, hread, _, _, rfl, rfl, hstatus, hstdout, hsame.trans hstatus,
    hshown.trans hstdout, (hreported hplain).1⟩

end Sequitur.CommandLine
