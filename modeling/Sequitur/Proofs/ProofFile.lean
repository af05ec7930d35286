import Sequitur.Proofs.Reading
import Sequitur.Proofs.Recording

/-! # Proof files at the end of a run

A run that records a proof leaves its file with the lines that the session
has read, however it ends: with a proof, with a goal that it cannot read, at
the end of its input or interrupted there. Nothing else in the file tree
changes. A run that loads a proof changes nothing, except that the empty name
counts as none: the run then asks what to do, and may be told to record.
-/

namespace Sequitur.CommandLine

/-! ## Options that exclude each other -/

/-- At most one of the options that take a name is given. -/
def Options.Exclusive (options : Options) : Prop :=
  options.load = none ∨ options.new = none

theorem Options.Exclusive.take {options taken : Options} {switch : Switch} {value : String}
    (htake : options.take switch value = .ok taken) : taken.Exclusive := by
  unfold Options.take at htake
  split at htake
  next =>
    split at htake
    next => contradiction
    next hnew =>
      obtain rfl := Except.ok.inj htake
      exact Or.inr (Option.not_isSome_iff_eq_none.mp hnew)
  next =>
    split at htake
    next => contradiction
    next hload =>
      obtain rfl := Except.ok.inj htake
      exact Or.inl (Option.not_isSome_iff_eq_none.mp hload)
  next => contradiction

theorem Options.Exclusive.flag {options : Options} (hexclusive : options.Exclusive)
    (switch : Switch) : (options.flag switch).Exclusive := by
  cases switch with
  | help => exact hexclusive
  | load => exact hexclusive
  | new => exact hexclusive
  | unicode => exact hexclusive
  | quiet => exact hexclusive

theorem Options.Exclusive.collect {options result : Options} {rejected : List String}
    {arguments : List Argument} (hexclusive : options.Exclusive)
    (hcollect : options.collect rejected arguments = .ok (.run result)) : result.Exclusive := by
  fun_induction Options.collect options rejected arguments with
  | case1 options rejected hrejected =>
      obtain rfl := Request.run.inj (Except.ok.inj hcollect)
      exact hexclusive
  | case2 => cases hcollect
  | case3 options rejected text rest ih => exact ih hexclusive hcollect
  | case4 options rejected text rest ih => exact ih hexclusive hcollect
  | case5 options rejected rest ih => exact ih hexclusive hcollect
  | case6 => cases hcollect
  | case7 => cases hcollect
  | case8 => cases hcollect
  | case9 options rejected switch value rest ih =>
      obtain ⟨taken, htake, hrest⟩ := Failure.bind_eq_ok.mp hcollect
      exact ih taken (.take htake) hrest
  | case10 options rejected switch name rest hhelp htakes ih =>
      obtain ⟨taken, htake, hrest⟩ := Failure.bind_eq_ok.mp hcollect
      exact ih taken (.take htake) hrest
  | case11 options rejected switch name rest hhelp htakes ih =>
      exact ih (hexclusive.flag switch) hcollect
  | case12 => cases hcollect
  | case13 options rejected switch rest hhelp hname htakes ih =>
      exact ih (hexclusive.flag switch) hcollect

theorem exclusive_of_parse {arguments : List String} {options : Options}
    (hparse : Options.parse arguments = .ok (.run options)) : options.Exclusive := by
  obtain ⟨classified, -, hcollect⟩ := Failure.bind_eq_ok.mp hparse
  have hinitial : Options.initial.Exclusive := Or.inl rfl
  exact hinitial.collect hcollect

theorem Options.Exclusive.load_eq_none {options : Options} (hexclusive : options.Exclusive)
    {name : String} (hnew : options.new = some name) : options.load = none := by
  rcases hexclusive with hload | hnone
  · exact hload
  · rw [hnew] at hnone
    cases hnone

theorem Options.Exclusive.new_eq_none {options : Options} (hexclusive : options.Exclusive)
    {name : String} (hload : options.load = some name) : options.new = none := by
  rcases hexclusive with hnone | hnew
  · rw [hload] at hnone
    cases hnone
  · exact hnew

theorem task?_of_new {options : Options} (hexclusive : options.Exclusive) {name : String}
    (hnew : options.new = some name) (hname : name ≠ "") : options.task? = some (.new name) := by
  simp only [Options.task?, hexclusive.load_eq_none hnew, hnew, given?_none, given?_some hname]

theorem task?_of_load {options : Options} {name : String} (hload : options.load = some name)
    (hname : name ≠ "") : options.task? = some (.load name) := by
  simp only [Options.task?, hload, given?_some hname]

/-- An empty name to load leaves open what to do. -/
theorem task?_of_empty_load {options : Options} (hexclusive : options.Exclusive)
    (hload : options.load = some "") : options.task? = none := by
  simp only [Options.task?, hload, hexclusive.new_eq_none hload, given?]

/-! ## Folders at the end of a run -/

theorem run_of_task {arguments : List String} {options : Options} {task : Task}
    (hparse : Options.parse arguments = .ok (.run options)) (htask : options.task? = some task)
    (console : Console) (folder : Folder) :
    run arguments console folder = perform options task console folder := by
  simp only [run, hparse, runOptions, htask]

theorem folder_cannotOpen (name : String) (folder : Folder) (error : FileError) :
    (cannotOpen name folder error).folder = folder := by
  cases error with
  | notFound => rfl
  | isDirectory => rfl
  | notDirectory => rfl
  | nameTooLong => rfl
  | nullCharacter => rfl

theorem folder_perform_load (options : Options) (name : String) (console : Console)
    (folder : Folder) : (perform options (.load name) console folder).folder = folder := by
  cases hreplay : folder.replay name with
  | error error =>
      simp only [perform, hreplay]
      exact folder_cannotOpen name folder error
  | ok session => rw [perform_load_of_replay hreplay, folder_conclude]

/-- The status that a run has when its session is over. -/
def sessionStatus (ending : InputEnd) : Except SessionError Proof → Status
  | .ok _ => .exit 0
  | .error .endOfInput =>
      match ending with
      | .closed => .exit 1
      | .interrupted => .exit 130
      | .pending => .waiting
  | .error _ => .exit 1

theorem status_conclude (quiet : Bool) (settings : Session.Settings) (ending : InputEnd)
    (session : Session) (folder : Folder) :
    (conclude quiet settings ending session folder).status =
      sessionStatus ending session.result := by
  unfold conclude
  cases session.result with
  | ok proof => rfl
  | error error =>
      cases error with
      | endOfInput => cases ending <;> rfl
      | unreadableGoal error => rfl
      | integrity error => rfl

/-- A run that records a proof puts the lines its session has read into the proof file, and nothing
anywhere else. -/
theorem exists_recorded {options : Options} {name : String} {folder : Folder}
    (hopen : ∃ written, folder.write (proofFile name) "" = .ok written) (console : Console) :
    ∃ path after, folder.locate (proofFile name) = .ok path ∧
      after.read (proofFile name) = .ok (Text.unlines (Session.run console.lines).linesRead) ∧
      (∀ other, other ≠ path → after.find? other = folder.find? other) ∧
      perform options (.new name) console folder =
        conclude options.quiet (.recording (!options.quiet) options.charset) console.ending
          (Session.run console.lines) after := by
  obtain ⟨written, hwritten⟩ := hopen
  obtain ⟨after, hwrite⟩ := Folder.exists_write_eq_ok hwritten
    ((Session.run console.lines).transcript (.recording (!options.quiet) options.charset))
  obtain ⟨path, hlocate, hpath, hafter⟩ := Folder.write_eq_ok_iff.mp hwrite
  refine ⟨path, after, hlocate, Folder.read_of_write hwrite, ?_, ?_⟩
  · intro other hother
    rw [hafter, Folder.find?_insert_of_ne folder hother]
  · apply perform_new_of_record
    exact Folder.record_eq_ok_iff.mpr ⟨rfl, hwrite⟩

/-- A run that asks what to do changes nothing unless it is told to record. -/
theorem folder_runOptions_of_asked {options : Options} (htask : options.task? = none)
    {console : Console}
    (hask : ∀ created rest, (ask console.lines).result ≠ .ok (.new created, rest))
    (folder : Folder) : (runOptions options console folder).folder = folder := by
  simp only [runOptions, htask]
  rcases hanswer : (ask console.lines).result with (_ | answer) | ⟨_ | _, rest⟩
  · cases console.ending with
    | closed => rfl
    | interrupted => rfl
    | pending => rfl
  · rfl
  · exact folder_perform_load options _ _ folder
  · exact absurd hanswer (hask _ rest)

/-- The empty name counts as none. A run that is given it to load a proof asks what to do, and
records a new proof when it is told so. -/
theorem empty_load_name_may_record :
    let outcome := run ["--load", "", "--quiet"] (.ofText "n\np\nT\nexact ()\n" .closed) .empty
    Options.parse ["--load", "", "--quiet"] = .ok (.run ⟨some "", none, false, true⟩) ∧
      outcome.status = .exit 0 ∧
      outcome.folder = ⟨[(["p.proof"], .file "T\nexact ()\n")], []⟩ ∧
      outcome.folder ≠ .empty := by
  intro outcome
  refine ⟨?_, ?_, ?_, ?_⟩
  · decide +kernel
  · decide +kernel
  · decide +kernel
  · decide +kernel

/-- Whatever the input and the file tree are, and however the input ends, a run that is to record a
proof under a name which can be written to leaves in the proof file just the lines that its session
needed, each ended by a line feed instead of the line ends that it had, and changes no other file.
It does so at every exit: with a proof, with a goal that it cannot read, at the end of its input or
interrupted there. A run that is to load a proof changes no file, unless its name is empty and it is
answered to record one. -/
theorem proof_file_at_every_exit (arguments : List String) (options : Options)
    (hparse : Options.parse arguments = .ok (.run options)) (console : Console)
    (folder : Folder) :
    let session := Session.run console.lines
    let outcome := run arguments console folder
    (∀ name, options.new = some name → name ≠ "" →
      (∃ written, folder.write (proofFile name) "" = .ok written) →
      ∃ count path, Session.Needs console.lines count ∧
        session.linesRead = (console.lines.take count).map Text.chomp ∧
        folder.locate (proofFile name) = .ok path ∧
        outcome.folder.read (proofFile name) =
          .ok (Text.unlines ((console.lines.take count).map Text.chomp)) ∧
        (∀ other, other ≠ path → outcome.folder.find? other = folder.find? other) ∧
        outcome.status = sessionStatus console.ending session.result) ∧
    ∀ name, options.load = some name →
      (name = "" → ∀ created rest, (ask console.lines).result ≠ .ok (.new created, rest)) →
      outcome.folder = folder := by
  intro session outcome
  have hexclusive : options.Exclusive := exclusive_of_parse hparse
  constructor
  · intro name hnew hname hopen
    obtain ⟨path, after, hlocate, hread, hother, hperform⟩ := exists_recorded hopen console
    have houtcome : outcome = conclude options.quiet (.recording (!options.quiet) options.charset)
        console.ending session after :=
      (run_of_task hparse (task?_of_new hexclusive hnew hname) _ folder).trans hperform
    have hlines : session.linesRead =
        (console.lines.take session.linesRead.length).map Text.chomp :=
      Session.linesRead_eq_map_take console.lines
    refine ⟨session.linesRead.length, path, Session.needs_linesRead console.lines, hlines, hlocate,
      ?_, ?_, ?_⟩
    · rw [houtcome, folder_conclude, hread, ← hlines]
    · rw [houtcome, folder_conclude]
      exact hother
    · rw [houtcome, status_conclude]
  · intro name hload hanswer
    by_cases hname : name = ""
    · subst hname
      have houtcome : outcome = runOptions options console folder := by
        simp only [outcome, run, hparse]
      rw [houtcome]
      exact folder_runOptions_of_asked (task?_of_empty_load hexclusive hload) (hanswer rfl) folder
    · have houtcome : outcome = perform options (.load name) console folder :=
        run_of_task hparse (task?_of_load hload hname) _ folder
      rw [houtcome]
      exact folder_perform_load options name _ folder

/-- A run that is interrupted after a failure, with a file to replace and one outside its folder to
leave alone, and a run that loads the latter. The carriage return that ends a line is not kept, and
the one within a line is. -/
theorem proof_file_at_every_exit_interrupted :
    let console := Console.ofText "T => T\r\nintro x\rcut" .interrupted
    let folder : Folder := ⟨[(["home", "p.proof"], .file "A"), (["q.proof"], .file "B")], ["home"]⟩
    let outcome := run ["--quiet", "--n", "p"] console folder
    Options.parse ["--quiet", "--n", "p"] = .ok (.run ⟨none, some "p", false, true⟩) ∧
      outcome.status = .exit 130 ∧
      outcome.folder.read "p.proof" = .ok "T => T\nintro x\rcut\n" ∧
      outcome.folder.find? ["q.proof"] = some (.file "B") ∧
      (run ["--load", "../q"] (.ofText "" .closed) folder).folder = folder := by
  intro console folder outcome
  have hnew : Options.parse ["--quiet", "--n", "p"] = .ok (.run ⟨none, some "p", false, true⟩) := by
    decide +kernel
  have hload : Options.parse ["--load", "../q"] =
      .ok (.run ⟨some "../q", none, false, false⟩) := by
    decide +kernel
  have hread : (Session.run console.lines).linesRead = ["T => T", "intro x\rcut"] := by
    decide +kernel
  have hresult : (Session.run console.lines).result = .error .endOfInput := by
    decide +kernel
  obtain ⟨count, path, -, hlines, hlocate, hfile, hother, hstatus⟩ :=
    (proof_file_at_every_exit _ _ hnew console folder).1 "p" rfl (by decide)
      ⟨⟨[(["home", "p.proof"], .file ""), (["q.proof"], .file "B")], ["home"]⟩, rfl⟩
  have hpath : path = ["home", "p.proof"] := Except.ok.inj (hlocate.symm.trans rfl)
  refine ⟨hnew, ?_, ?_, ?_, ?_⟩
  · exact hstatus.trans (by rw [hresult]; rfl)
  · rw [← hlines, hread] at hfile
    exact hfile
  · exact hother ["q.proof"] (by rw [hpath]; decide)
  · apply (proof_file_at_every_exit _ _ hload (.ofText "" .closed) folder).2 "../q" rfl
    intro hempty
    exact absurd hempty (by decide)

end Sequitur.CommandLine
