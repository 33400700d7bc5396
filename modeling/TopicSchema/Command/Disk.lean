import TopicSchema.Command.Path

/-! A tree of files and directories, and what becomes of it when directories are made and files
written. -/

namespace TopicSchema

inductive OsError where
  | notFound | alreadyExists | notDirectory | isDirectory | nameTooLong
  | other (text : String)
deriving DecidableEq, Repr

def OsError.message : OsError → String
  | notFound => "No such file or directory (os error 2)"
  | alreadyExists => "File exists (os error 17)"
  | notDirectory => "Not a directory (os error 20)"
  | isDirectory => "Is a directory (os error 21)"
  | nameTooLong => "File name too long (os error 36)"
  | other text => text

abbrev Location := List String

inductive Node where
  | file (content : List UInt8)
  | directory
deriving DecidableEq, Repr

structure Disk where
  nodes : List (Location × Node)
  workingDirectory : Location
deriving Repr

namespace Disk

def node? (disk : Disk) (location : Location) : Option Node :=
  if location = [] then some .directory else disk.nodes.lookup location

def put (disk : Disk) (location : Location) (node : Node) : Disk :=
  { disk with nodes := (location, node) :: disk.nodes.filter (·.1 != location) }

def longestName : Nat :=
  255

def longestPath : Nat :=
  4095

def enter (disk : Disk) (start : Location) (part : String) : Except OsError Location :=
  if part = "." then .ok start
  else if part = ".." then .ok start.dropLast
  else if longestName < part.utf8ByteSize then .error .nameTooLong
  else match disk.node? (start ++ [part]) with
    | some .directory => .ok (start ++ [part])
    | some (.file _) => .error .notDirectory
    | none => .error .notFound

def walk (disk : Disk) (start : Location) : List String → Except OsError Location
  | [] => .ok start
  | part :: parts => do
    let next ← disk.enter start part
    disk.walk next parts

inductive Place where
  | directory (location : Location)
  | name (location : Location) (slash : Bool)

def locate (disk : Disk) (path : String) : Except OsError Place :=
  if path = "" then .error .notFound
  else if longestPath < path.utf8ByteSize then .error .nameTooLong
  else
    let parts := (Path.parts path).filter (· != "")
    let start := if Path.isAbsolute path then [] else disk.workingDirectory
    match parts.getLast? with
    | none => .ok (.directory [])
    | some last => do
      let above ← disk.walk start parts.dropLast
      if last = "." then .ok (.directory above)
      else if last = ".." then .ok (.directory above.dropLast)
      else if longestName < last.utf8ByteSize then .error .nameTooLong
      else .ok (.name (above ++ [last]) (path.toList.getLast? == some '/'))

def find (disk : Disk) (path : String) : Except OsError Node := do
  match ← disk.locate path with
  | .directory _ => .ok .directory
  | .name location slash =>
    match disk.node? location with
    | none => .error .notFound
    | some .directory => .ok .directory
    | some (.file content) => if slash then .error .notDirectory else .ok (.file content)

def isDirectory (disk : Disk) (path : String) : Bool :=
  match disk.find path with
  | .ok .directory => true
  | _ => false

def readFile (disk : Disk) (path : String) : Except OsError (List UInt8) := do
  match ← disk.find path with
  | .directory => .error .isDirectory
  | .file content => .ok content

def writeFile (disk : Disk) (path : String) (content : List UInt8) : Except OsError Disk := do
  match ← disk.locate path with
  | .directory _ => .error .isDirectory
  | .name location slash =>
    if slash ∨ disk.node? location = some .directory then .error .isDirectory
    else .ok (disk.put location (.file content))

def makeDirectory (disk : Disk) (path : String) : Except OsError Disk := do
  match ← disk.locate path with
  | .directory _ => .error .alreadyExists
  | .name location _ =>
    match disk.node? location with
    | some _ => .error .alreadyExists
    | none => .ok (disk.put location .directory)

def provideDirectory (disk : Disk) (path : String) : Except OsError Disk :=
  match disk.makeDirectory path with
  | .ok disk => .ok disk
  | .error e => if disk.isDirectory path then .ok disk else .error e

/-- Makes a directory and first, if need be, those above it. What has been made stays when a later
step fails. -/
def provideWithin : Nat → Disk → String → Disk × Except OsError Unit
  | 0, disk, _ => (disk, .error .notFound)
  | bound + 1, disk, path =>
    if path = "" then (disk, .ok ())
    else match disk.provideDirectory path, Path.parent? path with
      | .ok disk, _ => (disk, .ok ())
      | .error .notFound, some parent =>
        match provideWithin bound disk parent with
        | (disk, .ok ()) =>
          match disk.provideDirectory path with
          | .ok disk => (disk, .ok ())
          | .error e => (disk, .error e)
        | failed => failed
      | .error e, _ => (disk, .error e)

def provideDirectories (disk : Disk) (path : String) : Disk × Except OsError Unit :=
  provideWithin ((Path.parts path).length + 1) disk path

end Disk

end TopicSchema
