import CallImpact.FileTree
import CallImpact.History.Document
import CallImpact.Progress
import CallImpact.Project
import CallImpact.Snapshot

/-!
# The store

The data directory: for every project a record of its history and one snapshot for each commit,
and the list of registered projects. A save first writes the snapshot under a temporary name, so a
save that fails leaves the record and all snapshots as they were.
-/

namespace CallImpact

/-- What a file of the data directory holds. -/
inductive Stored where
  | text (s : String)
  | binary
  | record (r : ProjectRecord)
  | snapshot (s : Snapshot)
  | projects (ps : List Project)
  deriving Repr, BEq, DecidableEq, Inhabited

/-- The data directory, where it is, and the bounds on histories. -/
structure Store where
  dataDir : String
  retention : RetentionPolicy := {}
  tree : FileTree Stored := .dir []
  deriving Inhabited

/-- A stored graph. -/
structure CallGraph where
  projectId : String
  commit : String
  branch : Option String
  created : Instant
  funcCount : Nat
  edgeCount : Nat
  millis : Nat
  algorithm : Algorithm
  fallback : Bool
  /-- The data file, relative to the project's directory. -/
  dataFile : String
  /-- How the path of the data file is written. -/
  dataPath : String
  deriving Repr, BEq, DecidableEq, Inhabited

/-- A stored graph in JSON. -/
def CallGraph.toJson (g : CallGraph) : Json :=
  .obj [("project_id", .str g.projectId), ("commit", .str g.commit), ("branch", .ofStr? g.branch),
    ("created_at", .str g.created.text), ("func_count", .nat g.funcCount),
    ("edge_count", .nat g.edgeCount), ("generation_time_ms", .nat g.millis),
    ("algorithm", g.algorithm.toJson), ("fallback", .bool g.fallback),
    ("data_path", .str g.dataPath)]

namespace Store

/-! ## Places -/

/-- The name of the file with the record of a project. -/
def recordFile : String := "meta.json"

/-- The name of the directory with the snapshots of a project. -/
def commitsDir : String := "commits"

/-- The directory of a project. -/
def projectDir (id : String) : Path :=
  pathOf id

/-- Where the record of a project is. -/
def recordPath (id : String) : Path :=
  projectDir id ++ [recordFile]

/-- Where a data file of a project is. -/
def dataPath (id dataFile : String) : Path :=
  pathOf (id ++ "/" ++ dataFile)

/-- How the path of a data file is written. -/
def shownPath (s : Store) (id dataFile : String) : String :=
  appendPath (appendPath s.dataDir id) dataFile

/-- The graph of an entry. -/
def graphOf (s : Store) (id : String) (e : HistoryEntry) : CallGraph :=
  { projectId := id
    commit := e.commit
    branch := e.branch
    created := e.created
    funcCount := e.funcCount
    edgeCount := e.edgeCount
    millis := e.millis
    algorithm := e.algorithm
    fallback := e.fallback
    dataFile := e.dataFile
    dataPath := s.shownPath id e.dataFile }

/-! ## Records -/

/-- A failed operation on files as an error of the store. -/
def fileError (e : FileError) : Error :=
  .store (.io e.message)

/-- What is recorded about a project, with the history newest first; none when it was never
analyzed. -/
def record? (s : Store) (id : String) : Except Error (Option ProjectRecord) :=
  let found : Except Error (Option ProjectRecord) := match s.tree.get? (recordPath id) with
    | none => .ok none
    | some (.dir _) => .error (fileError .isDirectory)
    | some (.file (.record r)) => .ok (some r)
    | some (.file (.text text)) =>
      match ProjectRecord.parse? text with
      | some r => .ok (some r)
      | none => .error (.store (.serialization "malformed record"))
    | some (.file _) => .error (fileError .notText)
  found.map (·.map fun r => { r with history := History.newestFirst r.history })

/-- Writes a record under a temporary name and moves it to its place. -/
def writeRecord (s : Store) (r : ProjectRecord) : Except Error Store :=
  let written := do
    let tree ← s.tree.makeDirs (projectDir r.id)
    let temporary := projectDir r.id ++ [recordFile ++ ".tmp"]
    let tree ← tree.writeFile temporary (.record r)
    tree.rename temporary (recordPath r.id)
  match written with
  | .ok tree => .ok { s with tree }
  | .error e => .error (fileError e)

/-- Removes the data file of an entry. -/
def removeData (s : Store) (id : String) (e : HistoryEntry) : Store :=
  { s with tree := s.tree.removeFile (dataPath id e.dataFile) }

/-! ## Reading operations -/

/-- The stored graphs of a project, newest first. -/
def list (s : Store) (id : String) : Except Error (List CallGraph) := do
  match ← s.record? id with
  | some r => return r.history.map (s.graphOf id)
  | none => return []

/-- Nothing is stored for a project. -/
def noGraphs (id : String) : Error :=
  .notFound ("no call graphs for project " ++ id)

/-- No stored graph belongs to a commit. -/
def noGraphFor (reference : String) : Error :=
  .notFound ("no call graph for commit " ++ reference)

/-- The graph that counts as the latest. -/
def latest (s : Store) (id : String) : Except Error CallGraph := do
  match ← s.record? id with
  | none => throw (noGraphs id)
  | some r =>
    match r.latest.bind fun l => r.history.find? fun e => e.commit == l.commit with
    | some e => return s.graphOf id e
    | none => throw (.notFound ("no latest call graph for project " ++ id))

/-- The graph that a reference selects. -/
def find (s : Store) (id reference : String) : Except Error CallGraph := do
  let reference ← History.checkReference reference
  let history := ((← s.record? id).map (·.history)).getD []
  match History.find? history reference with
  | some e => return s.graphOf id e
  | none => throw (noGraphFor reference)

/-- The snapshot in a data file. An empty file counts as a snapshot without content. -/
def openSnapshot (s : Store) (id dataFile : String) : Except Error Snapshot :=
  match s.tree.get? (dataPath id dataFile) with
  | some (.file (.snapshot snapshot)) => .ok snapshot
  | some (.file (.text "")) => .ok {}
  | some (.file _) => .error (.store (.database "file is not a database"))
  | _ => .error (.notFound ("call graph data file " ++ s.shownPath id dataFile))

/-- The snapshot of a stored graph. -/
def snapshotAt (s : Store) (g : CallGraph) : Except Error Snapshot :=
  s.openSnapshot g.projectId g.dataFile

/-! ## Changing operations -/

/-- The record of a project and the entry of it that a reference selects. -/
def select (s : Store) (id reference : String) : Except Error (ProjectRecord × HistoryEntry) := do
  let reference ← History.checkReference reference
  match ← s.record? id with
  | none => throw (noGraphs id)
  | some r =>
    match History.find? r.history reference with
    | some e => return (r, e)
    | none => throw (noGraphFor reference)

/-- Writes a record after other changes; those stay also when it cannot be written. -/
def finish {α : Type} (s : Store) (r : ProjectRecord) (a : α) : Store × Except Error α :=
  match s.writeRecord r with
  | .ok s => (s, .ok a)
  | .error e => (s, .error e)

/-- Makes the graph that a reference selects the latest. -/
def setLatest (s : Store) (id reference : String) : Store × Except Error CallGraph :=
  match s.select id reference with
  | .error e => (s, .error e)
  | .ok (r, e) => s.finish (r.pointAt (some e)) (s.graphOf id e)

/-- The record without the entries of a commit. -/
def withoutCommit (r : ProjectRecord) (commit : String) : ProjectRecord :=
  { r with history := r.history.filter fun e => e.commit != commit }

/-- Removes the graph that a reference selects. -/
def delete (s : Store) (id reference : String) : Store × Except Error CallGraph :=
  match s.select id reference with
  | .error e => (s, .error e)
  | .ok (r, e) =>
    (s.removeData id e).finish (withoutCommit r e.commit).repairLatest (s.graphOf id e)

/-- Removes the graphs beyond a bound on their number and one on their age. -/
def clean (s : Store) (id : String) (maxCount maxAgeDays : Nat) (now : Instant) :
    Store × Except Error (List CallGraph) :=
  match s.record? id with
  | .error e => (s, .error e)
  | .ok none => (s, .ok [])
  | .ok (some r) =>
    match History.retain r.history maxCount maxAgeDays now with
    | .error e => (s, .error e)
    | .ok p =>
      (p.removed.foldl (fun s e => s.removeData id e) s).finish
        ({ r with history := p.kept } : ProjectRecord).repairLatest (p.removed.map (s.graphOf id))

/-! ## Saving -/

/-- A graph to be stored. -/
structure NewGraph where
  commit : String
  branch : Option String
  graph : BuiltGraph
  millis : Nat
  deriving Repr, BEq, DecidableEq, Inhabited

/-- The first `count` bytes of a text; none when the cut falls inside a character. -/
def firstBytes? (count : Nat) : List Char → Option (List Char)
  | [] => some []
  | c :: cs =>
    if count = 0 then some []
    else if c.utf8Size ≤ count then (firstBytes? (count - c.utf8Size) cs).map (c :: ·)
    else none

/-- The data file with a name. -/
def dataFileNamed (name : String) : String :=
  commitsDir ++ "/" ++ name ++ ".db"

/-- The data file of a commit: it is named for the first bytes of the commit, or for all of them
when another commit has that file. -/
def dataFile? (r : ProjectRecord) (commit : String) : Option String :=
  (firstBytes? 7 commit.toList).map fun short =>
    let file := dataFileNamed (String.ofList short)
    if r.history.any fun e => e.commit != commit && e.dataFile == file then dataFileNamed commit
    else file

/-- The name under which a data file is written first. -/
def temporaryFile (dataFile : String) : String :=
  let name := Text.lastPiece '/' dataFile
  if name = ".db" then dataFile ++ ".db.tmp" else dataFile ++ ".tmp"

/-- What may be left of a file that was being written. -/
def partialFiles (file : String) : List String :=
  [file, file ++ "-wal", file ++ "-shm", file ++ "-journal"]

/-- Removes what may be left of a file that was being written. -/
def removePartial (s : Store) (id file : String) : Store :=
  { s with tree := (partialFiles file).foldl (fun t f => t.removeFile (dataPath id f)) s.tree }

/-- A snapshot of a graph, with the progress of writing it. -/
def snapshotOf (new : NewGraph) (now : Instant) : List Progress × Except StoreError Snapshot :=
  let nodes : List Progress := [⟨85, "Saving function nodes"⟩]
  match ({} : Snapshot).writeNodes new.graph.nodes with
  | .error e => (nodes, .error e)
  | .ok s =>
    let edges := nodes ++ [⟨90, "Saving call edges"⟩]
    match s.writeEdges new.graph.edges with
    | .error e => (edges, .error e)
    | .ok s =>
      (edges ++ [⟨95, "Saving metadata"⟩],
        .ok ((((s.setText "commit" new.commit).setText "algorithm" new.graph.actual.id).setText
          "module_path" new.graph.modulePath).setText "created_at" now.offsetText))

/-- Writes the snapshot of a graph under its temporary name and moves it to its place. -/
def placeSnapshot (s : Store) (id dataFile : String) (new : NewGraph) (now : Instant) :
    Store × List Progress × Except Error Unit :=
  let temporary := temporaryFile dataFile
  match s.tree.writeFile (dataPath id temporary) (.snapshot {}) with
  | .error _ =>
    (s, [], .error
      (.store (.database ("unable to open database file: " ++ s.shownPath id temporary))))
  | .ok created =>
    match snapshotOf new now with
    | (progress, .error e) => ({ s with tree := created }, progress, .error (.store e))
    | (progress, .ok snapshot) =>
      let full := created.write (dataPath id temporary) (.snapshot snapshot)
      match full.rename (dataPath id temporary) (dataPath id dataFile) with
      | .ok tree => ({ s with tree }, progress, .ok ())
      | .error e => ({ s with tree := full }, progress, .error (fileError e))

/-- The entry of a graph. -/
def entryOf (new : NewGraph) (dataFile : String) (now : Instant) : HistoryEntry :=
  { commit := new.commit
    branch := new.branch
    created := now
    funcCount := new.graph.nodes.length
    edgeCount := new.graph.edges.length
    millis := new.millis
    algorithm := new.graph.actual
    fallback := new.graph.fallback
    dataFile }

/-- Enters a graph whose snapshot is in its place into the record, and drops what is beyond the
bounds. -/
def enter (s : Store) (r : ProjectRecord) (id : String) (e : HistoryEntry) (now : Instant) :
    Store × Except Error CallGraph :=
  let history := History.newestFirst (e :: (withoutCommit r e.commit).history)
  match History.retain history (max s.retention.maxCount 1) s.retention.maxAgeDays now with
  | .error error => (s, .error error)
  | .ok p =>
    (p.removed.foldl (fun s e => s.removeData id e) s).finish
      (({ r with history := p.kept } : ProjectRecord).pointAt (some e)).repairLatest
      (s.graphOf id e)

/-- The record into which a project's next graph is entered. -/
def nextRecord (s : Store) (identity : ProjectIdentity) (old : Option ProjectRecord) :
    ProjectRecord :=
  { old.getD (ProjectRecord.fresh identity s.retention) with
    name := identity.name, remote := identity.remote, retention := s.retention }

/-- Stores a graph, in place of an earlier one of the same commit, and makes it the latest. -/
def save (s : Store) (identity : ProjectIdentity) (new : NewGraph) (now : Instant) :
    Store × List Progress × Except Error CallGraph :=
  match s.record? identity.id with
  | .error e => (s, [], .error e)
  | .ok old =>
    let r := s.nextRecord identity old
    match dataFile? r new.commit with
    | none => (s, [], .error .aborted)
    | some dataFile =>
      match s.tree.makeDirs (projectDir identity.id ++ [commitsDir]) with
      | .error e => (s, [], .error (fileError e))
      | .ok tree =>
        let prepared := ({ s with tree } : Store).removePartial identity.id (temporaryFile dataFile)
        let start : Progress := ⟨80, "Initializing call graph database"⟩
        match prepared.placeSnapshot identity.id dataFile new now with
        | (s, progress, .error e) =>
          (s.removePartial identity.id (temporaryFile dataFile), start :: progress, .error e)
        | (s, progress, .ok ()) =>
          match s.enter r identity.id (entryOf new dataFile now) now with
          | (s, .ok g) => (s, start :: progress ++ [⟨100, "Call graph saved"⟩], .ok g)
          | (s, .error e) => (s, start :: progress, .error e)

/-! ## Status -/

/-- Whether there is a graph for a commit, and how old it is. -/
structure Status where
  found : Bool := false
  upToDate : Bool := false
  commitsBehind : Nat := 0
  head : Option String := none
  current : Option String := none
  dataPath : Option String := none
  created : Option Instant := none
  funcCount : Option Nat := none
  deriving Repr, BEq, DecidableEq, Inhabited

/-- A status in JSON. -/
def Status.toJson (s : Status) : Json :=
  .obj [("exists", .bool s.found), ("up_to_date", .bool s.upToDate),
    ("commits_behind", .nat s.commitsBehind), ("head_commit", .ofStr? s.head),
    ("current_commit", .ofStr? s.current), ("data_path", .ofStr? s.dataPath),
    ("created_at", .ofOption (fun (i : Instant) => .str i.text) s.created),
    ("func_count", .ofOption .nat s.funcCount)]

/-- The newest entry of a project for a commit whose data file is there; either commit may be an
abbreviation of the other. -/
def entryFor? (s : Store) (id wanted : String) : Except Error (Option HistoryEntry) := do
  let history := ((← s.record? id).map (·.history)).getD []
  return history.find? fun e =>
    (Text.startsWith e.commit wanted || Text.startsWith wanted e.commit) &&
      s.tree.hasFile (dataPath id e.dataFile)

/-- The status of a commit, before the commits since then are counted. -/
def statusOf (s : Store) (id head : String) : Option HistoryEntry → Status
  | none => { head := some head }
  | some e =>
    { found := true
      upToDate := e.commit == head || Text.startsWith head e.commit
      head := some head
      current := some e.commit
      dataPath := some (s.shownPath id e.dataFile)
      created := some e.created
      funcCount := some e.funcCount }

end Store

end CallImpact
