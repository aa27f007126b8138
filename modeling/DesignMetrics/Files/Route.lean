import DesignMetrics.Files.Tree

/-!
Following a path through a tree.
-/

namespace DesignMetrics

/-- Why an operation on a path fails. -/
inductive FileFault where
  | notFound
  | taken
  | notDirectory
  | isDirectory
  | nameTooLong
  | nulInName
  deriving DecidableEq, Repr

def FileFault.message : FileFault → String
  | notFound => "No such file or directory (os error 2)"
  | taken => "File exists (os error 17)"
  | notDirectory => "Not a directory (os error 20)"
  | isDirectory => "Is a directory (os error 21)"
  | nameTooLong => "File name too long (os error 36)"
  | nulInName => "file name contained an unexpected NUL byte"

namespace Path

def isNameTooLong (name : String) : Bool := 255 < name.utf8ByteSize

def isTooLong (path : String) : Bool := 4095 < path.utf8ByteSize

def segments (path : String) : List String := (Text.splitAll '/' path).filter (!·.isEmpty)

/-- The segments of a path from the root directory on. -/
def segmentsFrom (working : List String) (path : String) : List String :=
  if path.startsWith "/" then segments path else working ++ segments path

def isDots (segment : String) : Bool := segment = "." || segment = ".."

end Path

/-- A directory on the way through a tree. -/
structure Spot where
  here : FileEntry
  above : List (String × FileEntry) := []

namespace Spot

def names (s : Spot) : List String := (s.above.map Prod.fst).reverse

def leave (s : Spot) : Spot :=
  match s.above with
  | [] => s
  | (_, outer) :: rest => ⟨outer, rest⟩

def look (s : Spot) (segment : String) : Except FileFault (Option FileEntry) :=
  if segment = "." then .ok (some s.here)
  else if segment = ".." then .ok (some s.leave.here)
  else if Path.isNameTooLong segment then .error .nameTooLong
  else .ok (s.here.child? segment)

def enter (s : Spot) (segment : String) : Except FileFault Spot := do
  match ← s.look segment with
  | none => .error .notFound
  | some (.file _) => .error .notDirectory
  | some (.directory es) =>
    return if segment = "." then s
      else if segment = ".." then s.leave
      else ⟨.directory es, (segment, s.here) :: s.above⟩

end Spot

/-- Where a path leads: a last segment, seen from the directory that the others lead to. -/
structure Route where
  spot : Spot
  last : String
  slash : Bool

namespace Route

def isDots (r : Route) : Bool := Path.isDots r.last

def found? (r : Route) : Except FileFault (Option FileEntry) := r.spot.look r.last

end Route

namespace FileTree

/-- A path goes on from directory to directory; its last segment need not be there. -/
def route (t : FileTree) (path : String) : Except FileFault Route :=
  if path.toList.contains '\x00' then .error .nulInName
  else if path.isEmpty then .error .notFound
  else if Path.isTooLong path then .error .nameTooLong
  else do
    let segments := Path.segmentsFrom t.working path
    let spot ← segments.dropLast.foldlM Spot.enter ⟨t.top, []⟩
    return ⟨spot, segments.getLast?.getD ".", path.endsWith "/"⟩

end FileTree

end DesignMetrics
