import DesignMetrics.Text.Basic

/-!
Paths. A path is a text; its components are what stands between slashes.
-/

namespace DesignMetrics

inductive PathPart where
  | root
  | current
  | parent
  | name (text : String)
  deriving DecidableEq, Repr

namespace PathPart

def rank : PathPart → Nat
  | root => 0
  | current => 1
  | parent => 2
  | name _ => 3

def text : PathPart → String
  | root => "/"
  | current => "."
  | parent => ".."
  | name t => t

instance : Ord PathPart where
  compare a b := (compare a.rank b.rank).then (compare a.text b.text)

end PathPart

namespace Path

/-- Empty components and dots do not count, except for a dot at the very start. -/
def part? (atStart : Bool) (text : String) : Option PathPart :=
  if text.isEmpty then none
  else if text = "." then if atStart then some .current else none
  else if text = ".." then some .parent
  else some (.name text)

def parts (path : String) : List PathPart :=
  match Text.splitAll '/' path with
  | [] => []
  | first :: rest =>
    let following := rest.filterMap (part? false)
    if first.isEmpty ∧ ¬ path.isEmpty then .root :: following
    else (part? true first).toList ++ following

def fileName? (path : String) : Option String :=
  match (parts path).getLast? with
  | some (.name t) => some t
  | _ => none

def extension? (path : String) : Option String := do
  let (before, after) ← Text.splitLast? '.' (← fileName? path)
  if before.isEmpty then none else some after

def hasExtension (extensions : List String) (path : String) : Bool :=
  match extension? path with
  | some e => extensions.any (Text.sameFolded e)
  | none => false

def join (base child : String) : String :=
  if child.startsWith "/" || base.isEmpty then child
  else if base.endsWith "/" then base ++ child
  else base ++ "/" ++ child

def isFiller (segment : String) : Bool := segment.isEmpty || segment = "."

def trimFiller : List String → List String
  | [] => []
  | [first] => [first]
  | segment :: rest => if isFiller segment then trimFiller rest else segment :: rest

def parent? (path : String) : Option String :=
  if (parts path).isEmpty || parts path = [.root] then none
  else
    match trimFiller (Text.splitAll '/' path).reverse with
    | [] | [_] => some ""
    | _ :: rest =>
      match trimFiller rest with
      | [""] => some "/"
      | kept => some ("/".intercalate kept.reverse)

def withExtension (path extension : String) : String :=
  match fileName? path with
  | none => path
  | some name =>
    let stem :=
      match Text.splitLast? '.' name with
      | some (before, _) => if before.isEmpty then name else before
      | none => name
    join ((parent? path).getD "") (stem ++ "." ++ extension)

/-- Paths are ordered component by component, so `a/b` comes before `a.b` although the slash is the
greater character. -/
def compare (a b : String) : Ordering := Ord.compare (parts a) (parts b)

end Path

end DesignMetrics
