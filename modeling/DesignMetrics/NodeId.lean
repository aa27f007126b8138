import Std.Data.TreeMap
import DesignMetrics.Text.Basic

/-!
Node identifiers. An identifier is a key and a one-letter tag of the node's kind, joined by `#`:
`App\Cart#c`, `App\Cart::total()#m`, `App\Cart::$items#p`. Identifiers are the only way in which
nodes refer to each other.
-/

namespace DesignMetrics

/-- What an identifier may name. -/
inductive NodeKind where
  | space
  | classType
  | interfaceType
  | method
  | function
  | property
  deriving DecidableEq, Repr

namespace NodeKind

def tag : NodeKind → Char
  | space => 'n'
  | classType => 'c'
  | interfaceType => 'i'
  | method => 'm'
  | function => 'f'
  | property => 'p'

def ofTag? : Char → Option NodeKind
  | 'n' => some space
  | 'c' => some classType
  | 'i' => some interfaceType
  | 'm' => some method
  | 'f' => some function
  | 'p' => some property
  | _ => none

def word : NodeKind → String
  | space => "namespace"
  | classType => "class"
  | interfaceType => "interface"
  | method => "method"
  | function => "function"
  | property => "property"

@[simp] theorem ofTag?_tag (k : NodeKind) : ofTag? k.tag = some k := by cases k <;> rfl

end NodeKind

/-- An identifier, ordered as its text. -/
structure NodeId where
  text : String
  deriving DecidableEq, Repr, Inhabited

namespace NodeId

instance : Ord NodeId := ⟨fun a b => compare a.text b.text⟩

instance : Std.TransOrd NodeId where
  eq_swap {a b} := show compare a.text b.text = (compare b.text a.text).swap from
    Std.OrientedCmp.eq_swap
  isLE_trans {a b c} := show (compare a.text b.text).isLE → (compare b.text c.text).isLE →
    (compare a.text c.text).isLE from Std.TransCmp.isLE_trans

instance : Std.LawfulEqOrd NodeId where
  compare_self {a} := show compare a.text a.text = .eq from Std.ReflCmp.compare_self
  eq_of_compare {a b} h := by
    have same : compare a.text b.text = .eq := h
    cases a; cases b
    exact congrArg NodeId.mk (Std.LawfulEqCmp.eq_of_compare same)

def globalName : String := "+global"

def ofKey (key : String) (kind : NodeKind) : NodeId :=
  ⟨key ++ "#" ++ String.singleton kind.tag⟩

def space (name : String) : NodeId :=
  ofKey (if name.isEmpty then globalName else name) .space

def classType (name : String) : NodeId := ofKey name .classType

def interfaceType (name : String) : NodeId := ofKey name .interfaceType

def function (name : String) : NodeId := ofKey (name ++ "()") .function

def method (declaring name : String) : NodeId :=
  ofKey (declaring ++ "::" ++ name ++ "()") .method

def property (declaring name : String) : NodeId :=
  ofKey (declaring ++ "::$" ++ name) .property

def key (id : NodeId) : String :=
  match Text.splitLast? '#' id.text with
  | some (before, _) => before
  | none => id.text

def kind? (id : NodeId) : Option NodeKind :=
  match Text.splitLast? '#' id.text with
  | some (_, after) =>
    match after.toList with
    | [c] => NodeKind.ofTag? c
    | _ => none
  | none => none

end NodeId

end DesignMetrics
