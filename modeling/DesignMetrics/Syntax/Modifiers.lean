import DesignMetrics.Text.Basic

/-!
Modifiers of classes, methods and properties, a set kept as the bits of a byte.
-/

namespace DesignMetrics

structure Modifiers where
  bits : UInt8
  deriving DecidableEq, Repr

namespace Modifiers

def none : Modifiers := ⟨0⟩
def isPublic : Modifiers := ⟨1⟩
def isProtected : Modifiers := ⟨2⟩
def isPrivate : Modifiers := ⟨4⟩
def isStatic : Modifiers := ⟨8⟩
def isAbstract : Modifiers := ⟨16⟩
def isFinal : Modifiers := ⟨32⟩

def contains (m other : Modifiers) : Bool := m.bits &&& other.bits == other.bits

def union (m other : Modifiers) : Modifiers := ⟨m.bits ||| other.bits⟩

def ofKeyword? (keyword : String) : Option Modifiers :=
  match Text.lower keyword with
  | "public" | "var" => some isPublic
  | "protected" => some isProtected
  | "private" => some isPrivate
  | "static" => some isStatic
  | "abstract" => some isAbstract
  | "final" => some isFinal
  | _ => Option.none

end Modifiers

end DesignMetrics
