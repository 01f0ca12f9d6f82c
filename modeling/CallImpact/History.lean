import CallImpact.Config
import CallImpact.Identity
import CallImpact.Time

/-!
# Histories

What is recorded about a project: the commits whose graphs are stored, newest first, and which of
them is the latest. Old entries are dropped by number and by age.
-/

namespace CallImpact

/-- A commit whose graph is stored. The data file is relative to the project's directory. -/
structure HistoryEntry where
  commit : String
  branch : Option String := none
  created : Instant
  funcCount : Nat
  edgeCount : Nat
  millis : Nat := 0
  algorithm : Algorithm
  fallback : Bool := false
  dataFile : String
  deriving Repr, BEq, DecidableEq, Inhabited

/-- The commit that counts as the latest. -/
structure LatestPointer where
  commit : String
  dataFile : String
  deriving Repr, BEq, DecidableEq, Inhabited

/-- The record of a project. -/
structure ProjectRecord where
  id : String
  name : String
  remote : Option String := none
  latest : Option LatestPointer := none
  retention : RetentionPolicy := {}
  history : List HistoryEntry := []
  deriving Repr, BEq, DecidableEq, Inhabited

namespace History

/-- Puts entries into order, newest first; entries of one instant keep their order. -/
def newestFirst (entries : List HistoryEntry) : List HistoryEntry :=
  entries.mergeSort fun a b => b.created.le a.created

/-- The entries that are kept and those that are removed. -/
structure Partition where
  kept : List HistoryEntry
  removed : List HistoryEntry
  deriving Repr, BEq, DecidableEq, Inhabited

/-- Whether the entry at a rank is kept: it is among the first `maxCount`, and not older than the
cut-off. -/
def isKept (maxCount : Nat) (cutoff : Option Instant) (ranked : HistoryEntry × Nat) : Bool :=
  ranked.2 < maxCount && cutoff.all fun c => c.le ranked.1.created

/-- Splits entries by number and by a cut-off. -/
def partition (entries : List HistoryEntry) (maxCount : Nat)
    (cutoff : Option Instant) : Partition :=
  { kept := (entries.zipIdx.filter (isKept maxCount cutoff)).map (·.1)
    removed := (entries.zipIdx.filter fun e => !isKept maxCount cutoff e).map (·.1) }

/-- The cut-off of an age bound: none for zero days. It fails when the cut-off has no date. -/
def cutoff (now : Instant) (maxAgeDays : Nat) : Except Error (Option Instant) :=
  if maxAgeDays = 0 then .ok none
  else match now.daysBefore? maxAgeDays with
    | some c => .ok (some c)
    | none => .error .aborted

/-- Splits entries, newest first, by a bound on their number and one on their age. -/
def retain (entries : List HistoryEntry) (maxCount maxAgeDays : Nat) (now : Instant) :
    Except Error Partition := do
  return partition entries maxCount (← cutoff now maxAgeDays)

/-- The entry that a reference selects: the one with that commit, else the first whose commit starts
with it. -/
def find? (entries : List HistoryEntry) (reference : String) : Option HistoryEntry :=
  (entries.find? fun e => e.commit == reference) <|>
    entries.find? fun e => Text.startsWith e.commit reference

/-- A reference without blanks around it, which must not be empty. -/
def checkReference (reference : String) : Except Error String :=
  let reference := Text.trim reference
  if reference = "" then .error (.inputInvalid "empty commit reference") else .ok reference

end History

namespace ProjectRecord

/-- The record of a project that was never analyzed. -/
def fresh (identity : ProjectIdentity) (retention : RetentionPolicy) : ProjectRecord :=
  { id := identity.id, name := identity.name, remote := identity.remote, retention }

/-- Makes an entry the latest. -/
def pointAt (r : ProjectRecord) (entry : Option HistoryEntry) : ProjectRecord :=
  { r with latest := entry.map fun e => ⟨e.commit, e.dataFile⟩ }

/-- Whether the latest commit is in the history. -/
def latestIsValid (r : ProjectRecord) : Bool :=
  r.latest.any fun l => r.history.any fun e => e.commit == l.commit

/-- Makes the newest entry the latest, unless the latest commit is in the history. -/
def repairLatest (r : ProjectRecord) : ProjectRecord :=
  if r.latestIsValid then r else r.pointAt r.history.head?

end ProjectRecord

end CallImpact
