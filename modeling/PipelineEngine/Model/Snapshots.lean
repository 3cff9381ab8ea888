import PipelineEngine.Model.Basic
import PipelineEngine.Word

/-!
# Snapshots

The model in force and its replacement.  A reload links the new document first; only a
model that was accepted is put in force, and then its epoch is announced.  A reader
that comes between the two sees the new model under the old epoch, never the reverse.
-/

namespace PipelineEngine

/-- The model in force, and the epoch last announced. -/
structure Snapshots where
  current : Model
  epoch : Nat
deriving Inhabited

namespace Snapshots

/-- The greatest epoch. -/
def maxEpoch : Nat := Word.bound 64 - 1

def ofModel (m : Model) : Snapshots := ⟨m, m.epoch⟩

/-- The first snapshot of a document. -/
def ofDocument (d : Document) : Except (List ConfigFault) Snapshots := (d.link 0).map ofModel

/-- The epoch of the next accepted model. -/
def nextEpoch (s : Snapshots) : Nat := min (s.epoch + 1) maxEpoch

/-- Links a document that is to replace the current one. -/
def candidate (s : Snapshots) (d : Document) : Except (List ConfigFault) Model := d.link s.nextEpoch

/-- Puts a model in force. -/
def install (s : Snapshots) (m : Model) : Snapshots := { s with current := m }

/-- Announces the epoch of the model in force. -/
def announce (s : Snapshots) : Snapshots := { s with epoch := s.current.epoch }

/-- Replaces the model by that of a document; faults leave everything as it was. -/
def reload (s : Snapshots) (d : Document) : Except (List ConfigFault) Snapshots :=
  (s.candidate d).map fun m => (s.install m).announce

end Snapshots

end PipelineEngine
