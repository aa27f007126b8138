import Std.Data.TreeSet
import DesignMetrics.Metric.Basic
import DesignMetrics.Metric.Reference
import DesignMetrics.Model.Subtype
import DesignMetrics.Syntax.Render

/-!
Coupling between types, and calls.
-/

namespace DesignMetrics

/-- What a reference belongs to. -/
inductive CouplingScope where
  | unit (id : NodeId)
  | function (id : NodeId)
  | type (id : NodeId)
  deriving DecidableEq, Repr

namespace CouplingScope

def id : CouplingScope → NodeId
  | unit id | function id | type id => id

def typeId? : CouplingScope → Option NodeId
  | type id => some id
  | _ => none

/-- The scope of a reference is the innermost type or function, or else the unit; methods and
closures have none of their own. -/
def ofVisit? : Visit → Option CouplingScope
  | .unit u => some (unit u.scopeId)
  | .function f => some (function f.id)
  | .type t => some (type t.id)
  | _ => none

end CouplingScope

structure CouplingRecord where
  afferent : Std.TreeSet NodeId := ∅
  efferent : Std.TreeSet NodeId := ∅

/-- The signatures that are called in the open scopes are kept in a stack beside that of the scopes. -/
structure Coupling where
  scopes : List CouplingScope := []
  invokes : List (Std.TreeSet String) := []
  records : Std.TreeMap NodeId CouplingRecord := ∅
  calls : Nat := 0
  fanout : Nat := 0

namespace Coupling

def currentType? (r : Registry) (c : Coupling) : Option TypeNode := do
  r.typeNode? (← (← c.scopes.head?).typeId?)

def record (c : Coupling) (id : NodeId) : CouplingRecord := c.records.getD id {}

def addAfferent (c : Coupling) (id scope : NodeId) : Coupling :=
  let old := c.record id
  { c with
    records := c.records.insert id { old with afferent := old.afferent.insert scope }
    fanout := if old.afferent.contains scope then c.fanout else c.fanout + 1 }

def addEfferent (c : Coupling) (id target : NodeId) : Coupling :=
  let old := c.record id
  { c with records := c.records.insert id { old with efferent := old.efferent.insert target } }

def areRelated (r : Registry) (s t : TypeNode) : Bool := r.isSubtype s t || r.isSubtype t s

/-- A reference to a type couples the scope that it stands in to that type, unless one of the two
types inherits from the other. -/
def couple (r : Registry) (c : Coupling) (t : TypeNode) : Coupling :=
  match c.scopes.head? with
  | none => c
  | some top =>
    if (c.currentType? r).any (areRelated r t) then c
    else
      let c := c.addAfferent t.id top.id
      match top.typeId? with
      | some id => c.addEfferent id t.id
      | none => c

def openScope (v : Visit) (c : Coupling) : Coupling :=
  match CouplingScope.ofVisit? v with
  | some scope => { c with scopes := scope :: c.scopes, invokes := ∅ :: c.invokes }
  | none => c

def initRecord (v : Visit) (c : Coupling) : Coupling :=
  match v with
  | .type t => { c with records := c.records.insertIfNew t.id {} }
  | _ => c

/-- Calls are counted once per signature and scope. -/
def noteCall (v : Visit) (c : Coupling) : Coupling :=
  match v, c.invokes with
  | .expr e, called :: rest =>
    match e.signature? with
    | some s => { c with invokes := called.insert s :: rest }
    | none => c
  | _, _ => c

def enter (r : Registry) (v : Visit) (c : Coupling) : Coupling :=
  let c := initRecord v (openScope v c)
  noteCall v ((r.references (c.currentType? r) v).foldl (couple r) c)

def closeScope (counts : Bool) (c : Coupling) : Coupling :=
  let called := (c.invokes.head?.map fun s => s.size).getD 0
  { c with
    scopes := c.scopes.tail
    invokes := c.invokes.tail
    calls := if counts then c.calls + called else c.calls }

def leave (v : Visit) (c : Coupling) : Coupling :=
  match v with
  | .unit _ => { c with scopes := [], invokes := [] }
  | .function _ => c.closeScope true
  | .type t => c.closeScope (!t.isInterface)
  | _ => c

def observe (r : Registry) (e : Event) (c : Coupling) : Coupling :=
  match e with
  | .enter v => c.enter r v
  | .leave v => c.leave v

def projectMetrics (c : Coupling) : MetricSet :=
  [("calls", count c.calls), ("fanout", count c.fanout)]

def nodeIds (c : Coupling) : List NodeId := c.records.keys

def nodeMetrics (c : Coupling) (id : NodeId) : MetricSet :=
  match c.records[id]? with
  | some record =>
    [("ca", count record.afferent.size), ("cbo", count record.efferent.size),
      ("ce", count record.efferent.size)]
  | none => []

end Coupling

end DesignMetrics
