import DesignMetrics.Glob.Basic

/-!
Reading glob patterns, one character after the other with a look at the next.
-/

namespace DesignMetrics

namespace ByteClass

/-- A class while it is read: the last range first, and whether a dash waits for its end. -/
structure Draft where
  negated : Bool
  ranges : List (Char × Char)
  dash : Bool

namespace Draft

def add (d : Draft) (c : Char) : Draft := { d with ranges := (c, c) :: d.ranges }

def extend (d : Draft) (c : Char) : Except GlobFault Draft :=
  match d.ranges with
  | (first, _) :: rest =>
    if c < first then .error (.invalidRange first c)
    else .ok { d with ranges := (first, c) :: rest, dash := false }
  | [] => .ok (d.add c)

def take (d : Draft) (c : Char) : Except GlobFault Draft :=
  if d.ranges.isEmpty then .ok (d.add c)
  else if d.dash then d.extend c
  else if c = '-' then .ok { d with dash := true }
  else .ok (d.add c)

def finish (d : Draft) : ByteClass :=
  { negated := d.negated,
    ranges := (if d.dash then d.add '-' else d).ranges.reverse }

end Draft

end ByteClass

namespace Glob

/-- What the next character belongs to. -/
inductive Mode where
  | plain
  | escaped
  | star (before : Option Char)
  | slash
  | classStart
  | inClass (draft : ByteClass.Draft)

/-- A pattern while it is read. The parts of a branch and the branches of a choice are listed last
one first. -/
structure Draft where
  mode : Mode := .plain
  previous : Option Char := none
  current : List GlobPart := []
  finished : List (List GlobPart) := []
  outer : List (List (List GlobPart) × List GlobPart) := []

namespace Draft

def push (d : Draft) (part : GlobPart) : Draft := { d with current := part :: d.current }

def inChoice (d : Draft) : Bool := !d.outer.isEmpty

def openChoice (d : Draft) : Draft :=
  { d with current := [], finished := [], outer := (d.finished, d.current) :: d.outer }

def closeChoice (d : Draft) : Except GlobFault Draft :=
  match d.outer with
  | [] => .error .unopenedChoice
  | (finished, current) :: outer =>
    let branches := (d.current :: d.finished).reverse.map List.reverse
    .ok { d with current := .choice branches :: current, finished, outer }

def comma (d : Draft) : Draft :=
  if d.inChoice then { d with current := [], finished := d.current :: d.finished }
  else d.push (.literal ',')

def twoStars (d : Draft) : Draft := (d.push .anyBytes).push .anyBytes

def span (d : Draft) (part : GlobPart) : Draft :=
  match d.current with
  | .leading :: _ => d
  | .trailing :: _ => d
  | _ :: rest => { d with current := part :: rest }
  | [] => { d with current := [part] }

/-- Two stars that make up a whole component of the pattern stand for directories. -/
def stars (d : Draft) (before next : Option Char) : Draft :=
  if d.current.isEmpty then
    match next with
    | none => d.push .leading
    | some '/' => { d.push .leading with mode := .slash }
    | some _ => d.twoStars
  else if before = some '/' ∨ d.inChoice ∧ (before = some ',' ∨ before = some '\x7b') then
    match next with
    | none => d.span .trailing
    | some '/' => { d.span .between with mode := .slash }
    | some c => if d.inChoice ∧ (c = ',' ∨ c = '\x7d') then d.span .trailing else d.twoStars
  else d.twoStars

/-- A star is any text, a question mark any byte, square brackets a class, braces a choice, and a
backslash takes the next character as it is. -/
def plain (d : Draft) (c : Char) (next : Option Char) : Except GlobFault Draft :=
  match c with
  | '?' => .ok (d.push .anyByte)
  | '*' =>
    if next = some '*' then .ok { d with mode := .star d.previous }
    else .ok (d.push .anyBytes)
  | '[' => .ok { d with mode := .classStart }
  | '\x7b' => .ok d.openChoice
  | '\x7d' => d.closeChoice
  | ',' => .ok d.comma
  | '\\' => .ok { d with mode := .escaped }
  | c => .ok (d.push (.literal c))

def inClass (d : Draft) (draft : ByteClass.Draft) (c : Char) : Except GlobFault Draft := do
  if c = ']' ∧ ¬ draft.ranges.isEmpty then
    return { d.push (.oneOf draft.finish) with mode := .plain }
  else return { d with mode := .inClass (← draft.take c) }

def step (d : Draft) (c : Char) (next : Option Char) : Except GlobFault Draft := do
  let d' ←
    match d.mode with
    | .plain => d.plain c next
    | .escaped => .ok { d.push (.literal c) with mode := .plain }
    | .star before => .ok ({ d with mode := .plain }.stars before next)
    | .slash => .ok { d with mode := .plain }
    | .classStart =>
      if c = '!' ∨ c = '^' then .ok { d with mode := .inClass ⟨true, [], false⟩ }
      else d.inClass ⟨false, [], false⟩ c
    | .inClass draft => d.inClass draft c
  return { d' with previous := some c }

def finish (d : Draft) : Except GlobFault Glob :=
  match d.mode with
  | .escaped => .error .danglingEscape
  | .classStart | .inClass _ => .error .unclosedClass
  | _ => if d.inChoice then .error .unclosedChoice else .ok ⟨d.current.reverse⟩

def read (d : Draft) : List Char → Except GlobFault Glob
  | [] => d.finish
  | c :: rest => do (← d.step c rest.head?).read rest
termination_by cs => cs.length

end Draft

def ofString (text : String) : Except GlobFault Glob :=
  ({} : Draft).read text.toList

end Glob

end DesignMetrics
