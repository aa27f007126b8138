import DesignMetrics.Files.Route

/-!
The operations on paths that programs use, and when these fail. A slash behind a path asks for a
directory.
-/

namespace DesignMetrics.FileTree

def find (t : FileTree) (path : String) : Except FileFault FileEntry := do
  let r ← t.route path
  match ← r.found? with
  | none => .error .notFound
  | some (.file content) => if r.slash then .error .notDirectory else return .file content
  | some (.directory es) => return .directory es

def hasDirectory (t : FileTree) (path : String) : Bool :=
  match t.find path with
  | .ok sub => sub.isDirectory
  | .error _ => false

def exists? (t : FileTree) (path : String) : Bool := (t.find path).isOk

def read (t : FileTree) (path : String) : Except FileFault ByteArray := do
  match ← t.find path with
  | .file content => return content
  | .directory _ => .error .isDirectory

def write (t : FileTree) (path : String) (content : ByteArray) : Except FileFault FileTree := do
  let r ← t.route path
  if r.isDots || r.slash then .error .isDirectory
  else
    match ← r.found? with
    | some (.directory _) => .error .isDirectory
    | _ => return t.put r.spot.names r.last (.file content)

def makeDirectory (t : FileTree) (path : String) : Except FileFault FileTree := do
  let r ← t.route path
  match ← r.found? with
  | some _ => .error .taken
  | none => return t.put r.spot.names r.last (.directory [])

def makeDirectoryUnlessThere (t : FileTree) (path : String) : Except FileFault FileTree :=
  match t.makeDirectory path with
  | .ok t => .ok t
  | .error fault => if t.hasDirectory path then .ok t else .error fault

def makeDirectoriesTo : Nat → String → FileTree → FileTree × Except FileFault Unit
  | 0, _, t => (t, .ok ())
  | n + 1, path, t =>
    if path.isEmpty then (t, .ok ())
    else
      match t.makeDirectoryUnlessThere path, Path.parent? path with
      | .ok made, _ => (made, .ok ())
      | .error .notFound, some parent =>
        match makeDirectoriesTo n parent t with
        | (t, .ok ()) =>
          match t.makeDirectoryUnlessThere path with
          | .ok made => (made, .ok ())
          | .error fault => (t, .error fault)
        | failed => failed
      | .error fault, _ => (t, .error fault)

def makeDirectories (t : FileTree) (path : String) : FileTree × Except FileFault Unit :=
  makeDirectoriesTo ((Path.parts path).length + 1) path t

def writeWithDirectories (t : FileTree) (path : String) (content : ByteArray)
    : Except FileFault FileTree :=
  match t.makeDirectories ((Path.parent? path).getD "") with
  | (made, .ok ()) => made.write path content
  | (_, .error fault) => .error fault

def rename (t : FileTree) (source target : String) : Except FileFault FileTree := do
  let origin ← t.route source
  let goal ← t.route target
  match ← origin.found? with
  | none => .error .notFound
  | some sub =>
    match sub, ← goal.found? with
    | .file _, some (.directory _) => .error .isDirectory
    | _, _ =>
      return (t.erase origin.spot.names origin.last).put goal.spot.names goal.last sub

def remove (t : FileTree) (path : String) : Except FileFault FileTree := do
  let r ← t.route path
  match ← r.found? with
  | none => .error .notFound
  | some (.directory _) => .error .isDirectory
  | some (.file _) => if r.slash then .error .notDirectory else return t.erase r.spot.names r.last

def list (t : FileTree) (path : String) : List String :=
  match t.find path with
  | .ok (.directory es) => (FileEntry.entryPaths path es).mergeSort (fun a b => decide (a ≤ b))
  | _ => []

end DesignMetrics.FileTree
