import DesignMetrics.Glob.Basic

/-!
Which paths a glob pattern matches.
-/

namespace DesignMetrics

namespace ByteClass

def bytesOf (c : Char) : List UInt8 := (String.singleton c).toUTF8.toList

def rangeHolds (range : Char × Char) (b : UInt8) : Bool :=
  let (first, last) := range
  if first = last then (bytesOf first).contains b
  else
    (bytesOf first).contains b || (bytesOf last).contains b
      || (((bytesOf first).getLast?.any (· ≤ b)) && ((bytesOf last).head?.any (b ≤ ·)))

def holds (bytes : ByteClass) (b : UInt8) : Bool :=
  (bytes.ranges.any fun range => rangeHolds range b) != bytes.negated

end ByteClass

namespace GlobPart

def unite : List Nat → List Nat → List Nat
  | [], bs => bs
  | as, [] => as
  | a :: as, b :: bs =>
    if a < b then a :: unite as (b :: bs)
    else if b < a then b :: unite (a :: as) bs
    else a :: unite as bs
termination_by as bs => as.length + bs.length

def slash : UInt8 := 47

def placesFrom (path : ByteArray) (start : Nat) : List Nat :=
  (List.range (path.size + 1)).drop start

def placesBehindSlash (path : ByteArray) (start : Nat) : List Nat :=
  (placesFrom path (start + 1)).filter fun i => path[i - 1]? == some slash

def standAt (path : ByteArray) : Nat → List UInt8 → Bool
  | _, [] => true
  | i, b :: rest => path[i]? == some b && standAt path (i + 1) rest

mutual

/-- A pattern is followed through the bytes of a path: from a number of places where a part may
start to those where it may end. Places are listed in increasing order. -/
def ends (path : ByteArray) : GlobPart → Nat → List Nat
  | literal c, start =>
    let bytes := ByteClass.bytesOf c
    if standAt path start bytes then [start + bytes.length] else []
  | anyByte, start => if start < path.size then [start + 1] else []
  | anyBytes, start => placesFrom path start
  | leading, start => unite [start] (placesBehindSlash path start)
  | trailing, start => if path[start]? == some slash then placesFrom path (start + 1) else []
  | between, start =>
    if path[start]? == some slash then
      unite [start + 1] (placesBehindSlash path (start + 1))
    else []
  | oneOf bytes, start =>
    match path[start]? with
    | some b => if bytes.holds b then [start + 1] else []
    | none => []
  | choice branches, start =>
    if branchesVoid branches then [start] else branchEnds path branches start

def branchEnds (path : ByteArray) : List (List GlobPart) → Nat → List Nat
  | [], _ => []
  | branch :: rest, start =>
    if partsVoid branch then branchEnds path rest start
    else unite (partsEnds path branch [start]) (branchEnds path rest start)

def partsEnds (path : ByteArray) : List GlobPart → List Nat → List Nat
  | [], starts => starts
  | part :: rest, starts =>
    partsEnds path rest (starts.foldr (fun start found => unite (ends path part start) found) [])

end

end GlobPart

namespace Glob

def isMatch (g : Glob) (path : String) : Bool :=
  match g.parts with
  | [.leading] => true
  | parts =>
    let bytes := path.toUTF8
    (GlobPart.partsEnds bytes parts [0]).contains bytes.size

end Glob

end DesignMetrics
