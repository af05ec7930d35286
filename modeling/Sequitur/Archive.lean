import Sequitur.Folder
import Sequitur.Session

/-! # Proof files

The lines of a session are kept in a file: the goal first, then the tactics
in the order in which they were given. Reading the file again replays the
session.
-/

namespace Sequitur

/-- The name of the file that keeps a proof. -/
def proofFile (name : String) : String :=
  name ++ ".proof"

/-- How a session that is recorded talks. -/
def Session.Settings.recording (verbose : Bool) (charset : Charset) : Session.Settings where
  interactive := true
  verbose := verbose
  echo := false
  charset := charset

/-- How a session that is replayed talks: it shows the lines that nobody types. -/
def Session.Settings.replaying (verbose : Bool) (charset : Charset) : Session.Settings where
  interactive := false
  verbose := verbose
  echo := verbose
  charset := charset

/-- How a session over given lines talks. -/
def Session.Settings.unattended (verbose : Bool) (charset : Charset) : Session.Settings where
  interactive := false
  verbose := verbose
  echo := false
  charset := charset

namespace Folder

/-- Run a session and keep its transcript, in place of what the file held before. -/
def record (folder : Folder) (name : String) (settings : Session.Settings) (lines : List String) :
    Except FileError (Session × Folder) := do
  let session := Session.run lines
  let folder ← folder.write (proofFile name) (session.transcript settings)
  return (session, folder)

/-- Run the session that a proof file keeps. -/
def replay (folder : Folder) (name : String) : Except FileError Session := do
  let text ← folder.read (proofFile name)
  return Session.run (Text.lines text)

end Folder

end Sequitur
