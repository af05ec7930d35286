import Sequitur.CommandLine

/-! # The program

Standard input is handed to the run line by line, and what the run shows and
records is written as soon as it is known.
-/

namespace Sequitur.CommandLine

/-- A path as the system takes it. -/
def systemName (path : Path) : String :=
  "/" ++ "/".intercalate path

/-- The part of the file tree that a file name leads through. -/
def snapshot (name : String) : IO Folder := do
  let directory ← IO.currentDir
  let mut folder : Folder := ⟨[], (components directory.toString).filter (· ≠ "")⟩
  let mut place := folder.start name
  for component in components name do
    if component = ".." then
      place := place.dropLast
    else if component ≠ "" ∧ component ≠ "." then
      place := place ++ [component]
      let found := directory / systemName place
      if ← found.isDir then
        folder := folder.insert place .directory
      else if ← found.pathExists then
        folder := folder.insert place (.file (← IO.FS.readFile found))
  return folder

/-- Bring the files of the tree to the texts that a run gave them. -/
def store (before after : Folder) : IO Unit := do
  for (path, text) in after.files do
    if before.find? path ≠ some (.file text) then
      IO.FS.writeFile (systemName path) text

/-- Show what a longer run shows beyond a shorter one. -/
def showMore (before after : String) : IO Unit := do
  let stdout ← IO.getStdout
  stdout.putStr (String.ofList (after.toList.drop before.length))
  stdout.flush

/-- Run with the lines so far, and with further ones for as long as they are needed. The two
folders are the one that the run starts from and the one that is stored. -/
partial def converse (arguments lines : List String) (shown : String)
    (folders : Option (Folder × Folder)) : IO UInt32 := do
  let folders ← match folders, task? arguments lines with
    | none, some task => do
        let folder ← snapshot (proofFile task.name)
        pure (some (folder, folder))
    | folders, _ => pure folders
  let (first, stored) := folders.getD (.empty, .empty)
  let outcome := run arguments ⟨lines, .pending⟩ first
  showMore shown outcome.stdout
  store stored outcome.folder
  match outcome.status with
  | .exit code =>
      (← IO.getStderr).putStr outcome.stderr
      return code.toUInt32
  | .aborted error => throw (IO.userError error.message)
  | .waiting =>
      let line ← (← IO.getStdin).getLine
      if line.isEmpty then
        let last := run arguments ⟨lines, .closed⟩ first
        showMore outcome.stdout last.stdout
        (← IO.getStderr).putStr last.stderr
        return match last.status with
          | .exit code => code.toUInt32
          | _ => 1
      else
        converse arguments (lines ++ Text.inputLines line) outcome.stdout
          (folders.map fun (first, _) => (first, outcome.folder))

end Sequitur.CommandLine

/-- Prove interactively, or replay a proof, as the arguments say. -/
def main (arguments : List String) : IO UInt32 :=
  Sequitur.CommandLine.converse arguments [] "" none
