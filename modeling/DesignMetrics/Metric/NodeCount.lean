import DesignMetrics.Metric.Basic
import DesignMetrics.Traversal.Event

/-!
How many namespaces, classes, interfaces, methods and functions there are, in the project and in each
namespace, and how many methods each type has.
-/

namespace DesignMetrics

/-- The counts of a namespace or a type; a type has methods only. -/
structure NodeCountRecord where
  classes : Option Nat := none
  interfaces : Option Nat := none
  methods : Nat := 0
  functions : Option Nat := none
  deriving DecidableEq, Repr

namespace NodeCountRecord

def ofNamespace : NodeCountRecord := ⟨some 0, some 0, 0, some 0⟩

def ofType : NodeCountRecord := {}

def oneMore (n : Option Nat) : Option Nat := some (n.getD 0 + 1)

def addClass (r : NodeCountRecord) : NodeCountRecord := { r with classes := oneMore r.classes }

def addInterface (r : NodeCountRecord) : NodeCountRecord :=
  { r with interfaces := oneMore r.interfaces }

def addMethod (r : NodeCountRecord) : NodeCountRecord := { r with methods := r.methods + 1 }

def addFunction (r : NodeCountRecord) : NodeCountRecord := { r with functions := oneMore r.functions }

def metric (name : String) (n : Option Nat) : MetricSet := (n.map fun n => (name, count n)).toList

def metrics (r : NodeCountRecord) : MetricSet :=
  metric "noc" r.classes ++ metric "nof" r.functions ++ metric "noi" r.interfaces
    ++ [("nom", count r.methods)]

end NodeCountRecord

/-- Why a method cannot be counted. -/
inductive NodeCountFault where
  | noDeclaringType (method : NodeId)
  | notVisited (type : NodeId)
  deriving DecidableEq, Repr

def NodeCountFault.message : NodeCountFault → String
  | noDeclaringType method => s!"{method.text} has no declaring type"
  | notVisited type => s!"declaring type {type.text} was not visited"

structure NodeCount where
  namespaces : Nat := 0
  classes : Nat := 0
  abstractClasses : Nat := 0
  interfaces : Nat := 0
  methods : Nat := 0
  functions : Nat := 0
  records : Std.TreeMap NodeId NodeCountRecord := ∅

namespace NodeCount

def touch (c : NodeCount) (space : NamespaceNode) : NodeCount :=
  if c.records.contains space.id then c
  else
    { c with
      records := c.records.insert space.id .ofNamespace
      namespaces := c.namespaces + 1 }

def bump (c : NodeCount) (space : NamespaceNode) (add : NodeCountRecord → NodeCountRecord)
    : NodeCount :=
  let c := c.touch space
  { c with records := c.records.modify space.id add }

def initType (c : NodeCount) (t : TypeNode) : NodeCount :=
  { c with records := c.records.insert t.id .ofType }

def enterType (r : Registry) (t : TypeNode) (c : NodeCount) : NodeCount :=
  let space := r.namespaceNamed t.refs.space
  match t.kind with
  | .classType =>
    let c := { c with
      classes := c.classes + 1
      abstractClasses := if t.isAbstract then c.abstractClasses + 1 else c.abstractClasses }
    (c.initType t).bump space .addClass
  | .interfaceType =>
    ({ c with interfaces := c.interfaces + 1 }.initType t).bump space .addInterface

def enterMethod (r : Registry) (m : MethodNode) (c : NodeCount) : Except NodeCountFault NodeCount :=
  match r.type? m.refs.declaringType with
  | none => .error (.noDeclaringType m.id)
  | some declaring =>
    if c.records.contains declaring.id then
      let c := { c with
        methods := c.methods + 1
        records := c.records.modify declaring.id .addMethod }
      .ok (c.bump (r.namespaceNamed m.refs.space) .addMethod)
    else .error (.notVisited declaring.id)

/-- Of the types and the namespaces, only identifiers matter. -/
theorem enterMethod_congr {r r' : Registry} {m : MethodNode}
    (types : (r.type? m.refs.declaringType).map TypeNode.id
      = (r'.type? m.refs.declaringType).map TypeNode.id)
    (spaces : (r.namespaceNamed m.refs.space).id = (r'.namespaceNamed m.refs.space).id) (c : NodeCount)
    : c.enterMethod r m = c.enterMethod r' m := by
  unfold enterMethod bump touch
  rw [spaces]
  cases left : r.type? m.refs.declaringType <;> cases right : r'.type? m.refs.declaringType <;>
    simp_all

/-- A method is counted for its type if that has a record. -/
theorem enterMethod_ok {r : Registry} {m : MethodNode} {c c' : NodeCount}
    (h : c.enterMethod r m = .ok c')
    : ∃ d, r.type? m.refs.declaringType = some d ∧ d.id ∈ c.records
      ∧ c' = { c with
          methods := c.methods + 1
          records := c.records.modify d.id .addMethod }.bump (r.namespaceNamed m.refs.space) .addMethod := by
  unfold enterMethod at h
  split at h
  · simp at h
  · rename_i d found
    split at h
    · rename_i there
      exact ⟨d, found, there, (Except.ok.inj h).symm⟩
    · simp at h

def observe (r : Registry) (e : Event) (c : NodeCount) : Except NodeCountFault NodeCount :=
  match e with
  | .enter (.space n) => .ok (c.touch n)
  | .enter (.type t) => .ok (c.enterType r t)
  | .enter (.method m) => c.enterMethod r m
  | .enter (.function f) =>
    .ok ({ c with functions := c.functions + 1 }.bump (r.namespaceNamed f.refs.space) .addFunction)
  | _ => .ok c

def projectMetrics (c : NodeCount) : MetricSet :=
  [("clsa", count c.abstractClasses), ("clsc", count (c.classes - c.abstractClasses)),
    ("noc", count c.classes), ("nof", count c.functions), ("noi", count c.interfaces),
    ("nom", count c.methods), ("nop", count c.namespaces)]

def nodeIds (c : NodeCount) : List NodeId := c.records.keys

def nodeMetrics (c : NodeCount) (id : NodeId) : MetricSet :=
  ((c.records[id]?).map NodeCountRecord.metrics).getD []

end NodeCount

end DesignMetrics
