/-!
Glob patterns. A pattern is a list of parts, each of which covers some bytes of a path's text. A
slash is a byte like any other, except for the parts that stand for whole directories.
-/

namespace DesignMetrics

/-- A set of bytes, written as characters and ranges of characters. -/
structure ByteClass where
  negated : Bool
  ranges : List (Char × Char)
  deriving DecidableEq, Repr

inductive GlobPart where
  | literal (c : Char)
  | anyByte
  | anyBytes
  | leading
  | trailing
  | between
  | oneOf (bytes : ByteClass)
  | choice (branches : List (List GlobPart))

/-- Why a text is no pattern. -/
inductive GlobFault where
  | unclosedClass
  | invalidRange (first last : Char)
  | unopenedChoice
  | unclosedChoice
  | danglingEscape
  deriving DecidableEq, Repr

def GlobFault.message : GlobFault → String
  | unclosedClass => "unclosed character class; missing ']'"
  | invalidRange first last => s!"invalid range; '{first}' > '{last}'"
  | unopenedChoice =>
    "unopened alternate group; missing '\x7b' (maybe escape '\x7d' with '[\x7d]'?)"
  | unclosedChoice =>
    "unclosed alternate group; missing '\x7d' (maybe escape '\x7b' with '[\x7b]'?)"
  | danglingEscape => "dangling '\\'"

structure Glob where
  parts : List GlobPart

namespace GlobPart

mutual

def isVoid : GlobPart → Bool
  | choice branches => branchesVoid branches
  | _ => false

def branchesVoid : List (List GlobPart) → Bool
  | [] => true
  | branch :: rest => partsVoid branch && branchesVoid rest

def partsVoid : List GlobPart → Bool
  | [] => true
  | part :: rest => isVoid part && partsVoid rest

end

end GlobPart

end DesignMetrics
