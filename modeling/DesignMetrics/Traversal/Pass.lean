import DesignMetrics.Traversal.Observer

/-!
One pass of all observers through units. Each event is told when it happens, and the first refusal ends
the pass.
-/

namespace DesignMetrics.Traversal

variable {σ φ : Type} [Observer σ φ]

/-- A pass on its way: the place of the last event, and the observers. -/
structure Company (σ : Type) where
  place : String
  observers : List σ

abbrev Pass (σ φ : Type) := ExceptT (TraversalFault φ) (StateM (Company σ))

def stopAt (place : String) : Option (String × φ) → Pass σ φ PUnit
  | some (name, cause) => throw (.refused name place cause)
  | none => return

def announce (r : Registry) (e : Event) : Pass σ φ PUnit := do
  let company ← get
  let place := e.place company.place
  let (observers, refusal) := tell r e company.observers
  set (Company.mk place observers)
  stopAt place refusal

def surround (r : Registry) (v : Visit) (inner : Pass σ φ PUnit) : Pass σ φ PUnit := do
  announce r (.enter v)
  inner
  announce r (.leave v)

def passPart (r : Registry) (declared : NodeId → Pass σ φ PUnit) : Part → Pass σ φ PUnit
  | .stmt (.declared id) => declared id
  | .stmt (.classDecl _) | .stmt (.interfaceDecl _) | .stmt (.functionDecl _) => return
  | .stmt (.inNamespace decl) =>
    surround r (.space (r.namespaceNamed (decl.name.getD "")))
      ((Part.stmt (.inNamespace decl)).children.attach.forM fun ⟨p, _⟩ => passPart r declared p)
  | .stmt s =>
    surround r (.stmt s) ((Part.stmt s).children.attach.forM fun ⟨p, _⟩ => passPart r declared p)
  | .expr e =>
    surround r (.expr e) ((Part.expr e).children.attach.forM fun ⟨p, _⟩ => passPart r declared p)
termination_by p => sizeOf p
decreasing_by all_goals exact Part.sizeOf_lt_of_mem_children (by assumption)

def passBody (r : Registry) (declared : NodeId → Pass σ φ PUnit) (body : List Stmt)
    : Pass σ φ PUnit :=
  body.forM fun s => passPart r declared (.stmt s)

def passMember (r : Registry) (declared : NodeId → Pass σ φ PUnit) (owner id : NodeId)
    : Pass σ φ PUnit :=
  match r.node? id with
  | some (.method m) => surround r (.method m) (passBody r declared (m.body.getD []))
  | some (.property p) => surround r (.property p) (return)
  | _ => throw (.broken (.lostMember id owner))

def passDeclaration (r : Registry) : Nat → NodeId → Pass σ φ PUnit
  | 0, id => throw (.broken (.endless id))
  | n + 1, id =>
    match r.node? id with
    | some (.type t) =>
      surround r (.type t) (t.members.forM (passMember r (passDeclaration r n) t.id))
    | some (.function f) => surround r (.function f) (passBody r (passDeclaration r n) f.body)
    | some other => throw (.broken (.notDeclaration id other.kind))
    | none => throw (.broken (.notRegistered id))

def passUnit (r : Registry) (depth : Nat) (u : CompilationUnit) : Pass σ φ PUnit :=
  surround r (.unit u) (passBody r (passDeclaration r depth) u.statements)

def Pass.outcome (pass : Pass σ φ PUnit) (place : String) (observers : List σ) : Outcome σ φ :=
  match pass.run.run ⟨place, observers⟩ with
  | (.ok _, company) => ⟨company.observers, none⟩
  | (.error fault, company) => ⟨company.observers, some fault⟩

def process (r : Registry) (depth : Nat) (units : List CompilationUnit) (observers : List σ)
    : Outcome σ φ :=
  Pass.outcome (units.forM (passUnit r depth)) "" observers

end DesignMetrics.Traversal
