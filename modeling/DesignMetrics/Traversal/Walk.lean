import DesignMetrics.Syntax.Parts
import DesignMetrics.Traversal.Event

/-!
The depth-first walk over units.
-/

namespace DesignMetrics

/-- Why a walk cannot go on. -/
inductive WalkFault where
  | notDeclaration (id : NodeId) (kind : NodeKind)
  | notRegistered (id : NodeId)
  | lostMember (member owner : NodeId)
  | endless (id : NodeId)
  deriving DecidableEq, Repr

def WalkFault.message : WalkFault → String
  | notDeclaration id kind => s!"{id.text} is not a declaration ({kind.word})"
  | notRegistered id => s!"declaration {id.text} is not registered"
  | lostMember member owner => s!"member {member.text} of {owner.text} is not registered"
  | endless id => s!"declaration {id.text} never ends"

/-- The events of a walk, up to its fault if it has one. -/
structure Walk where
  events : List Event := []
  fault : Option WalkFault := none

namespace Walk

def done : Walk := {}

def failed (fault : WalkFault) : Walk := ⟨[], some fault⟩

def each {α : Type} (walk : α → Walk) : List α → Walk
  | [] => done
  | a :: rest =>
    let first := walk a
    match first.fault with
    | some _ => first
    | none =>
      let others := each walk rest
      ⟨first.events ++ others.events, others.fault⟩

def inside (v : Visit) (inner : Walk) : Walk :=
  match inner.fault with
  | some _ => ⟨.enter v :: inner.events, inner.fault⟩
  | none => ⟨.enter v :: (inner.events ++ [.leave v]), none⟩

def part (r : Registry) (declared : NodeId → Walk) : Part → Walk
  | .stmt (.declared id) => declared id
  | .stmt (.classDecl _) | .stmt (.interfaceDecl _) | .stmt (.functionDecl _) => done
  | .stmt (.inNamespace decl) =>
    inside (.space (r.namespaceNamed (decl.name.getD "")))
      (each (fun ⟨p, _⟩ => part r declared p) (Part.stmt (.inNamespace decl)).children.attach)
  | .stmt s =>
    inside (.stmt s) (each (fun ⟨p, _⟩ => part r declared p) (Part.stmt s).children.attach)
  | .expr e =>
    inside (.expr e) (each (fun ⟨p, _⟩ => part r declared p) (Part.expr e).children.attach)
termination_by p => sizeOf p
decreasing_by all_goals exact Part.sizeOf_lt_of_mem_children (by assumption)

def stmts (r : Registry) (declared : NodeId → Walk) (body : List Stmt) : Walk :=
  each (fun s => part r declared (.stmt s)) body

def member (r : Registry) (declared : NodeId → Walk) (owner id : NodeId) : Walk :=
  match r.node? id with
  | some (.method m) => inside (.method m) (stmts r declared (m.body.getD []))
  | some (.property p) => inside (.property p) done
  | _ => failed (.lostMember id owner)

/-- A marker of a declaration leads to its node, and a type to its members, so a walk may go through
any number of nodes before it comes back. -/
def declaration (r : Registry) : Nat → NodeId → Walk
  | 0, id => failed (.endless id)
  | n + 1, id =>
    match r.node? id with
    | some (.type t) => inside (.type t) (each (member r (declaration r n) t.id) t.members)
    | some (.function f) => inside (.function f) (stmts r (declaration r n) f.body)
    | some other => failed (.notDeclaration id other.kind)
    | none => failed (.notRegistered id)

def unit (r : Registry) (depth : Nat) (u : CompilationUnit) : Walk :=
  inside (.unit u) (stmts r (declaration r depth) u.statements)

def unitsTo (r : Registry) (depth : Nat) (units : List CompilationUnit) : Walk :=
  each (unit r depth) units

/-- A walk that passes through more nodes than there are has met one of them inside itself and would
never end. -/
def units (r : Registry) (units : List CompilationUnit) : Walk := unitsTo r (r.size + 1) units

end Walk

end DesignMetrics
