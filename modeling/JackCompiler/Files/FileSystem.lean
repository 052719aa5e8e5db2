import JackCompiler.Files.Host
/-!
# A file system as a value

Files and directories by their place below the root, and a working directory that relative paths
start from. Every component of a path but the last has to be a directory, `.` stays and `..` goes
up, where the root is its own parent. A path that ends with a separator names a directory only.
`node?_insert` says what stands where after a change.
-/

namespace JackCompiler

inductive Node
  | file (bytes : List UInt8)
  | directory
  deriving DecidableEq, Repr

/-- The names from the root down. -/
abbrev Place := List EntryName

structure FileSystem where
  nodes : List (Place × Node) := []
  workingDirectory : Place := []
  /-- One node stands at a place. -/
  nodup : (nodes.map Prod.fst).Nodup := by simp
  deriving DecidableEq, Repr

namespace FileSystem

/-- What stands at a place. The root is a directory. -/
def node? (files : FileSystem) (place : Place) : Option Node :=
  if place = [] then some .directory else files.nodes.lookup place

/-- Puts a node at a place, in the stead of what stood there. -/
def insert (files : FileSystem) (place : Place) (node : Node) : FileSystem where
  nodes := (place, node) :: files.nodes.filter (·.1 ≠ place)
  workingDirectory := files.workingDirectory
  nodup := by
    simpa using files.nodup.sublist (List.filter_sublist.map Prod.fst)

theorem node?_insert (files : FileSystem) {place : Place} (node : Node) (other : Place)
    (h : place ≠ []) :
    (files.insert place node).node? other =
      if other = place then some node else files.node? other := by
  by_cases hother : other = place
  · simp [node?, insert, hother, h]
  · have hbeq : (other == place) = false := by simpa using hother
    have lookup_filter (nodes : List (Place × Node)) :
        (nodes.filter (·.1 ≠ place)).lookup other = nodes.lookup other := by
      induction nodes with
      | nil => rfl
      | cons entry nodes ih =>
        by_cases hplace : entry.1 = place
        · rw [List.filter_cons_of_neg (by simpa using hplace), ih, List.lookup_cons, hplace, hbeq]
        · rw [List.filter_cons_of_pos (by simpa using hplace), List.lookup_cons, List.lookup_cons,
            ih]
    rw [node?, insert, List.lookup_cons, hbeq, lookup_filter, if_neg hother, node?]

/-! ## Finding a place -/

/-- Where a component leads from a directory. -/
def enter (place : Place) : Component → Place
  | .current => place
  | .parent => place.dropLast
  | .entry name => place ++ [name]

/-- Refuses a place that is no directory. -/
def checkDirectory (files : FileSystem) (place : Place) : Except IoError Unit :=
  match files.node? place with
  | some .directory => .ok ()
  | some (.file _) => .error .notDirectory
  | none => .error .notFound

/-- Where components lead from a place. Each is looked for in a directory. -/
def walk (files : FileSystem) (place : Place) : List Component → Except IoError Place
  | [] => .ok place
  | component :: components =>
    match files.checkDirectory place with
    | .ok () => files.walk (enter place component) components
    | .error error => .error error

/-- Where the components of a path are looked for first. -/
def startOf (files : FileSystem) (path : Path) : Place :=
  if path.isAbsolute then [] else files.workingDirectory

/-- The place and the node of a path. -/
def find (files : FileSystem) (path : Path) : Except IoError (Place × Node) :=
  if path.text = "" then .error .notFound
  else
    let components := path.components ++ if path.endsWithSeparator then [.current] else []
    match files.walk (files.startOf path) components with
    | .error error => .error error
    | .ok place =>
      match files.node? place with
      | some node => .ok (place, node)
      | none => .error .notFound

/-- The place a path names, in a directory that exists. `taken` is the error of a path that ends in
no name. -/
def findNew (files : FileSystem) (path : Path) (taken : IoError) : Except IoError Place :=
  if path.text = "" then .error .notFound
  else
    match path.components.getLast? with
    | none => .error taken
    | some last =>
      match files.walk (files.startOf path) path.components.dropLast with
      | .error error => .error error
      | .ok directory =>
        match files.checkDirectory directory, last with
        | .error error, _ => .error error
        | .ok (), .entry name => .ok (directory ++ [name])
        | .ok (), _ => .error taken

/-! ## Operations -/

def entryKind (files : FileSystem) (path : Path) : Except IoError EntryKind :=
  match files.find path with
  | .ok (_, .file _) => .ok .file
  | .ok (_, .directory) => .ok .directory
  | .error error => .error error

/-- The name of a place in a directory, if it is right below it. -/
def nameIn (directory place : Place) : Option EntryName :=
  if place.dropLast = directory then place.getLast? else none

def entryNames (files : FileSystem) (path : Path) : Except IoError (List EntryName) :=
  match files.find path with
  | .ok (place, .directory) => .ok (files.nodes.filterMap fun entry => nameIn place entry.1)
  | .ok (_, .file _) => .error .notDirectory
  | .error error => .error error

def readFile (files : FileSystem) (path : Path) : Except IoError (List UInt8) :=
  match files.find path with
  | .ok (_, .file bytes) => .ok bytes
  | .ok (_, .directory) => .error .isDirectory
  | .error error => .error error

/-- Replaces the bytes of a file, or creates it. -/
def writeFile (files : FileSystem) (path : Path) (bytes : List UInt8) :
    Except IoError FileSystem :=
  match files.findNew path .isDirectory with
  | .error error => .error error
  | .ok place =>
    if path.endsWithSeparator then .error .isDirectory
    else
      match files.node? place with
      | some .directory => .error .isDirectory
      | _ => .ok (files.insert place (.file bytes))

/-- Creates one directory. -/
def makeDirectory (files : FileSystem) (path : Path) : Except IoError FileSystem :=
  match files.findNew path .fileExists with
  | .error error => .error error
  | .ok place =>
    match files.node? place with
    | some _ => .error .fileExists
    | none => .ok (files.insert place .directory)

/-- Puts a node at a place, with the directories above it. -/
def install (files : FileSystem) (place : Place) (node : Node) : FileSystem :=
  let parents := (List.range place.length).map fun count => place.take count
  let missing := parents.filter fun parent => (files.node? parent).isNone
  (missing.foldl (fun files parent => files.insert parent .directory) files).insert place node

/-- The files that are new or whose bytes differ from what they were. -/
def changedSince (files before : FileSystem) : List (Place × List UInt8) :=
  files.nodes.filterMap fun (place, node) =>
    match node with
    | .file bytes => if before.node? place = some (.file bytes) then none else some (place, bytes)
    | .directory => none

end FileSystem

/-- A file system and the log of what was done with it. -/
structure Session where
  files : FileSystem
  /-- The records, the last one first. -/
  log : List Log.Record := []

namespace Session

/-- Does an operation that may change the files. A failure leaves them as they are. -/
def update (change : FileSystem → Except IoError FileSystem) :
    StateM Session (Except IoError Unit) := fun session =>
  match change session.files with
  | .ok files => (.ok (), { session with files })
  | .error error => (.error error, session)

instance : Host (StateM Session) where
  entryKind path := fun session => (session.files.entryKind path, session)
  entryNames path := fun session =>
    ((session.files.entryNames path).map fun names => names.map (·.text), session)
  readFile path := fun session => (session.files.readFile path, session)
  writeFile path text := update fun files => files.writeFile path text.toByteArray.toList
  makeDirectory path := update fun files => files.makeDirectory path
  record record := fun session => ((), { session with log := record :: session.log })

end Session

end JackCompiler
