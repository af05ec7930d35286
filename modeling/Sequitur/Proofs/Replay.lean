import Sequitur.Proofs.Folder
import Sequitur.Proofs.Lines
import Sequitur.Proofs.Session

/-! # Replaying sessions

A session is settled by the lines that it reads. Those lines, given again
without their ends, make up the same session, whatever was left unread. A
transcript gives the lines back unless a line end stands within one of them,
and a proof file gives the transcript back, so a recorded session is replayed.
-/

namespace Sequitur

theorem Text.chomp_chomp (line : String) : chomp (chomp line) = chomp line := by
  have hchars : dropEndWhile isLineEnd (dropEndWhile isLineEnd line.toList) =
      dropEndWhile isLineEnd line.toList :=
    List.rdropWhile_idempotent isLineEnd line.toList
  rw [chomp, chomp, String.toList_ofList, hchars]

theorem Text.mem_of_mem_chomp {line : String} {c : Char} (hc : c ∈ (chomp line).toList) :
    c ∈ line.toList := by
  rw [chomp, String.toList_ofList] at hc
  exact (List.rdropWhile_prefix isLineEnd line.toList).subset hc

/-- Given the lines that it read, a run is repeated. -/
theorem Elaboration.run_linesRead (sequent : Sequent) (lines : List String) :
    run sequent (run sequent lines).linesRead = run sequent lines := by
  fun_induction run sequent lines with
  | case1 sequent => rfl
  | case2 sequent line rest command error hstep ih =>
      have hcommand : Text.chomp command = command := Text.chomp_chomp line
      simp only [linesRead_after, run, hcommand, hstep, ih]
  | case3 sequent line rest command term hstep =>
      have hcommand : Text.chomp command = command := Text.chomp_chomp line
      simp only [linesRead, List.map_cons, List.map_nil, run, hcommand, hstep]
  | case4 sequent line rest command sub frame hstep ih =>
      have hcommand : Text.chomp command = command := Text.chomp_chomp line
      simp only [linesRead_after, linesRead_within, run, hcommand, hstep, ih]

namespace Session

theorem linesRead_unreadableGoal (line : String) (error : SyntaxError) :
    (unreadableGoal line error).linesRead = [line] :=
  rfl

theorem linesRead_worked (line : String) (goal : Proposition) (elaboration : Elaboration) :
    (worked line goal elaboration).linesRead = line :: elaboration.linesRead :=
  rfl

/-- Given the lines that it read, a session is repeated. -/
theorem run_linesRead (lines : List String) : run (run lines).linesRead = run lines := by
  cases lines with
  | nil => rfl
  | cons first rest =>
      have hfirst : Text.chomp (Text.chomp first) = Text.chomp first := Text.chomp_chomp first
      cases hgoal : Proposition.parse (Text.chomp first) with
      | error error =>
          have hagain : Proposition.parse (Text.chomp (Text.chomp first)) = .error error := by
            rw [hfirst, hgoal]
          rw [run_cons_of_error hgoal, linesRead_unreadableGoal, run_cons_of_error hagain, hfirst]
      | ok goal =>
          have hagain : Proposition.parse (Text.chomp (Text.chomp first)) = .ok goal := by
            rw [hfirst, hgoal]
          rw [run_cons_of_ok hgoal, linesRead_worked, run_cons_of_ok hagain, hfirst,
            Elaboration.run_linesRead]

/-- A session reads its lines from the front, one after another. -/
theorem linesRead_front (lines : List String) :
    (run lines).linesRead <+: lines.map Text.chomp := by
  cases lines with
  | nil => exact List.nil_prefix
  | cons first rest =>
      rw [List.map_cons]
      cases hgoal : Proposition.parse (Text.chomp first) with
      | error error =>
          rw [run_cons_of_error hgoal, linesRead_unreadableGoal]
          exact (List.prefix_cons_inj _).mpr List.nil_prefix
      | ok goal =>
          rw [run_cons_of_ok hgoal, linesRead_worked]
          exact (List.prefix_cons_inj _).mpr (Elaboration.linesRead_front _ rest)

theorem linesRead_eq_map_take (lines : List String) :
    (run lines).linesRead = (lines.take (run lines).linesRead.length).map Text.chomp := by
  rw [List.map_take]
  exact List.prefix_iff_eq_take.mp (linesRead_front lines)

/-- Only carriage returns can end a line within a line of standard input. -/
theorem oneLine_of_mem_linesRead {text line : String}
    (hline : line ∈ (run (Text.inputLines text)).linesRead) (hreturn : '\r' ∉ line.toList) :
    Text.OneLine line.toList := by
  obtain ⟨given, hgiven, rfl⟩ := List.mem_map.mp ((linesRead_front _).subset hline)
  refine Text.oneLine_iff.mpr ⟨hreturn, ?_⟩
  intro hfeed
  exact Text.newline_not_mem_of_mem_inputLines hgiven (Text.mem_of_mem_chomp hfeed)

theorem transcript_of_interactive {settings : Settings} (hinteractive : settings.interactive = true)
    (session : Session) : session.transcript settings = Text.unlines session.linesRead := by
  simp [transcript, hinteractive]

/-- The transcript of a session whose lines are single lines is read as the same session. -/
theorem run_transcript {settings : Settings} (hinteractive : settings.interactive = true)
    {lines : List String} (hone : ∀ line ∈ (run lines).linesRead, Text.OneLine line.toList) :
    run (Text.lines ((run lines).transcript settings)) = run lines := by
  rw [transcript_of_interactive hinteractive, Text.lines_unlines hone, run_linesRead]

end Session

namespace Folder

theorem record_eq_ok_iff {folder after : Folder} {name : String} {settings : Session.Settings}
    {lines : List String} {session : Session} :
    folder.record name settings lines = .ok (session, after) ↔
      session = Session.run lines ∧
        folder.write (proofFile name) (session.transcript settings) = .ok after := by
  rw [record, Failure.bind_eq_ok]
  constructor
  · rintro ⟨written, hwrite, hreturn⟩
    obtain ⟨rfl, rfl⟩ := Prod.mk.inj (Except.ok.inj hreturn)
    exact ⟨rfl, hwrite⟩
  · rintro ⟨rfl, hwrite⟩
    exact ⟨after, hwrite, rfl⟩

/-- What is replayed from a proof file is the transcript of the session that was recorded. -/
theorem replay_of_record {folder after : Folder} {name : String} {settings : Session.Settings}
    {lines : List String} {session : Session}
    (hrecord : folder.record name settings lines = .ok (session, after)) :
    after.replay name = .ok (Session.run (Text.lines (session.transcript settings))) := by
  obtain ⟨-, hwrite⟩ := record_eq_ok_iff.mp hrecord
  rw [replay, read_of_write hwrite]
  rfl

end Folder

namespace Session

/-- Whatever its lines are and however it talks, an interactive session has read lines from the
front of its input, and its transcript is divided into just these lines, without their ends, if and
only if no line end stands within one of them. Then the transcript replays the session: it is read
with the same result, the same proof or the same error, and so is the proof file in which the
session was recorded. -/
theorem transcript_replays (settings : Settings) (hinteractive : settings.interactive = true)
    (lines : List String) :
    let session := run lines
    let text := session.transcript settings
    session.linesRead = (lines.take session.linesRead.length).map Text.chomp ∧
      (Text.lines text = session.linesRead ↔
        ∀ line ∈ session.linesRead, Text.OneLine line.toList) ∧
      ((∀ line ∈ session.linesRead, Text.OneLine line.toList) →
        (run (Text.lines text)).result = session.result ∧
        ∀ (folder after : Folder) (name : String),
          folder.record name settings lines = .ok (session, after) →
          ∃ replayed, after.replay name = .ok replayed ∧ replayed.result = session.result) := by
  intro session text
  have htext : text = Text.unlines session.linesRead :=
    transcript_of_interactive hinteractive session
  refine ⟨?_, ?_, ?_⟩
  · exact linesRead_eq_map_take lines
  · rw [htext]
    exact Text.lines_unlines_iff session.linesRead
  · intro hone
    have hsession : run (Text.lines text) = session := run_transcript hinteractive hone
    refine ⟨congrArg result hsession, ?_⟩
    intro folder after name hrecord
    exact ⟨_, Folder.replay_of_record hrecord, congrArg result hsession⟩

/-- A session with untidy line ends, a failure, an empty line and a line that it does not read. -/
theorem transcript_replays_untidy :
    (Settings.recording true .unicode).interactive = true ∧
      (run ["T => T\r\n", "cut", "", "intro x\n\n", "exact x", "exact x"]).linesRead =
        ["T => T", "cut", "", "intro x", "exact x"] ∧
      (∀ line ∈ (run ["T => T\r\n", "cut", "", "intro x\n\n", "exact x", "exact x"]).linesRead,
        Text.OneLine line.toList) ∧
      Text.lines ((run ["T => T\r\n", "cut", "", "intro x\n\n", "exact x", "exact x"]).transcript
        (.recording true .unicode)) = ["T => T", "cut", "", "intro x", "exact x"] ∧
      ∃ after replayed,
        Folder.empty.record "p" (.recording true .unicode)
          ["T => T\r\n", "cut", "", "intro x\n\n", "exact x", "exact x"] =
            .ok (run ["T => T\r\n", "cut", "", "intro x\n\n", "exact x", "exact x"], after) ∧
        after.replay "p" = .ok replayed ∧
        replayed.result = .ok ⟨.implies .truth .truth, .lam "x" .truth (.var "x")⟩ := by
  have hread : (run ["T => T\r\n", "cut", "", "intro x\n\n", "exact x", "exact x"]).linesRead =
      ["T => T", "cut", "", "intro x", "exact x"] := by
    decide +kernel
  have hone : ∀ line ∈ (run ["T => T\r\n", "cut", "", "intro x\n\n", "exact x",
      "exact x"]).linesRead, Text.OneLine line.toList := by
    rw [hread]
    simp [Text.OneLine, Text.isLineEnd]
  have hresult : (run ["T => T\r\n", "cut", "", "intro x\n\n", "exact x", "exact x"]).result =
      .ok ⟨.implies .truth .truth, .lam "x" .truth (.var "x")⟩ := by
    cbv
  obtain ⟨-, hlines, hreplays⟩ := transcript_replays (.recording true .unicode) rfl
    ["T => T\r\n", "cut", "", "intro x\n\n", "exact x", "exact x"]
  obtain ⟨written, hwritten⟩ : ∃ after, Folder.empty.write (proofFile "p") "" = .ok after :=
    ⟨⟨[(["p.proof"], .file "")], []⟩, rfl⟩
  obtain ⟨after, hwrite⟩ := Folder.exists_write_eq_ok hwritten
    ((run ["T => T\r\n", "cut", "", "intro x\n\n", "exact x", "exact x"]).transcript
      (.recording true .unicode))
  have hrecord := Folder.record_eq_ok_iff.mpr ⟨rfl, hwrite⟩
  obtain ⟨replayed, hreplay, hsame⟩ := (hreplays hone).2 .empty after "p" hrecord
  exact ⟨rfl, hread, hone, (hlines.mpr hone).trans hread, after, replayed, hrecord, hreplay,
    hsame.trans hresult⟩

end Session

end Sequitur
