/-!
# The log directory

Each run that logs to a file adds a session file to the log directory, and removes the session files
that have grown too old.
-/

namespace Waymark

inductive EntryKind where
  /-- A file and how many seconds ago it was written. Clocks may differ, so the age may be negative. -/
  | file (age : Int)
  | directory
  deriving DecidableEq, Repr

structure LogEntry where
  name : String
  kind : EntryKind
  deriving DecidableEq, Repr

namespace LogEntry

def isSessionName (name : String) : Bool :=
  "session-".toList.isPrefixOf name.toList && ".log".toList.isSuffixOf name.toList

/-- Only session files are ever removed. -/
def isExpired (retention : Nat) (e : LogEntry) : Bool :=
  match e.kind with
  | .file age => isSessionName e.name && decide ((retention : Int) < age)
  | .directory => false

end LogEntry

structure LogDirectory where
  entries : List LogEntry

inductive LogFault where
  | missing
  | notADirectory
  deriving DecidableEq, Repr

namespace LogDirectory

def names (d : LogDirectory) : List String :=
  (d.entries.map (·.name)).mergeSort fun a b => a ≤ b

def cleanUp (d : LogDirectory) (retention : Nat) : Nat × LogDirectory :=
  let (expired, left) := d.entries.partition (·.isExpired retention)
  (expired.length, ⟨left⟩)

def cleanUpIfThere (d : Option LogDirectory) (retention : Nat) :
    Except LogFault (Nat × LogDirectory) :=
  match d with
  | some d => .ok (d.cleanUp retention)
  | none => .error .missing

def sessionRetention : Nat := 7 * 24 * 60 * 60

end LogDirectory

end Waymark
