import Sequitur.Main
import Sequitur.Parser.Rule
import Sequitur.Proofs.Certificate
import Sequitur.Proofs.Kripke
import Sequitur.Proofs.Provability
import Sequitur.Proofs.Machine
import Sequitur.Proofs.Folder
import Sequitur.Proofs.Replay
import Sequitur.Proofs.Recording
import Sequitur.Proofs.Interference
import Sequitur.Proofs.Reading
import Sequitur.Proofs.ProofFile
import Sequitur.Proofs.FreeVariables
import Sequitur.Proofs.Subformulas
import Sequitur.Proofs.Nesting
import Sequitur.Proofs.Renaming
import Sequitur.Proofs.Slices
import Sequitur.Proofs.Recursion
import Sequitur.Proofs.FirstError
import Sequitur.Proofs.Calls
import Sequitur.Proofs.Charsets
import Sequitur.Proofs.DisplayedSequents
import Sequitur.Proofs.Introduction
import Sequitur.Proofs.Contexts
