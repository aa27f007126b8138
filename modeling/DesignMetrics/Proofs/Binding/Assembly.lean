import DesignMetrics.Proofs.Binding.Draft

/-! What drafts are made of.
The draft of a statement is assembled from those of the declarations in it, one after the other. Each
declaration has a node that stands for it, with what is drafted inside, unless its identifier is taken.
What holds of every draft is proved by induction on how it is assembled.
-/

namespace DesignMetrics

-- Nodes and what they stand for

def Part.scope? : Part → Option (Binding.TypeScope × List Member)
  | stmt (.classDecl d) => some (⟨d.name, d.parent⟩, d.members)
  | stmt (.interfaceDecl d) => some (⟨d.name, none⟩, d.members)
  | _ => none

open Binding in
/-- The nodes that stand for a declaration in the file `path`. -/
inductive Stands (path : String) : Part → Node → Prop
  | space {name : String} (d : NamespaceDecl) (named : d.name = some name)
      (isOpen : name.isEmpty = false)
    : Stands path (.stmt (.inNamespace d))
        (.space { id := .space name, name, userDefined := true
                  location := some (.ofSpan path d.span) })
  | classType (d : ClassDecl) : Stands path (.stmt (.classDecl d)) (.type (classNode path d))
  | interfaceType (d : InterfaceDecl)
    : Stands path (.stmt (.interfaceDecl d)) (.type (interfaceNode path d))
  | function (d : FunctionDecl) (known : List NodeId)
    : Stands path (.stmt (.functionDecl d))
        (.function { functionNode path d with body := (draftStmts path known d.body).value })
  | method {p : Part} {scope : TypeScope} {members : List Member} {d : MethodDecl}
      (declares : p.scope? = some (scope, members)) (member : .method d ∈ members)
      (known : List NodeId)
    : Stands path p
        (.method { methodNode path scope d with body := (draftBody path known d.body).value })
  | property {p : Part} {scope : TypeScope} {members : List Member} {d : PropertyDecl}
      (declares : p.scope? = some (scope, members)) (member : .property d ∈ members)
    : Stands path p (.property (propertyNode path scope d))

variable {n : Node} {path : String} {p : Part}

/-- Nodes of a source are declared in the project. -/
theorem Stands.isUserDefined (h : Stands path p n) : n.isUserDefined := by
  cases h <;> rfl

/-- The identifier of a node has the tag of its kind. -/
theorem Stands.id_eq (h : Stands path p n) : ∃ key, n.id = .ofKey key n.kind := by
  cases h with
  | space => exact ⟨_, rfl⟩
  | classType => exact ⟨_, rfl⟩
  | interfaceType => exact ⟨_, rfl⟩
  | function => exact ⟨_, rfl⟩
  | method => exact ⟨_, rfl⟩
  | property => exact ⟨_, rfl⟩

namespace Node

def isSpace : Node → Bool
  | space _ => true
  | _ => false

theorem isSpace_iff : n.isSpace ↔ n.kind = .space := by
  cases n with
  | type t => cases kind : t.kind <;> simp [isSpace, Node.kind, TypeKind.nodeKind, kind]
  | _ => simp [isSpace, kind]

def owner? : Node → Option String
  | method m => some m.refs.declaringType
  | property p => some p.refs.declaringType
  | space _ | type _ | function _ => none

def scope? : Node → Option String
  | type t => some t.qualifiedName
  | space _ | method _ | function _ | property _ => none

end Node

open Binding in
/-- A type has the name of its scope and lists its members. -/
theorem Stands.scope_name {scope : TypeScope} {members : List Member} {t : TypeNode}
    (h : Stands path p (.type t)) (declares : p.scope? = some (scope, members))
    : scope.name = t.qualifiedName ∧ t.members = memberIds scope.name members := by
  cases h with
  | classType d | interfaceType d =>
    obtain ⟨rfl, rfl⟩ := Prod.mk.inj (Option.some.inj declares)
    exact ⟨by simp [TypeNode.qualifiedName, classNode, NodeId.classType, interfaceNode,
      NodeId.interfaceType], rfl⟩

-- Identifiers as they are nested in the source

/-- The identifiers that a source declares, in order, each with those declared inside it. -/
inductive Nest where
  | done
  | entry (id : NodeId) (inside after : Nest)

namespace Nest

def append : Nest → Nest → Nest
  | done, next => next
  | entry id inside after, next => entry id inside (after.append next)

instance : Append Nest := ⟨append⟩

@[simp] theorem done_append (n : Nest) : done ++ n = n := rfl

@[simp] theorem entry_append (id : NodeId) (inside after next : Nest)
    : entry id inside after ++ next = entry id inside (after ++ next) := rfl

end Nest

def Stmt.opened : Stmt → Nest
  | .inNamespace ⟨some name, _, _⟩ =>
    if name.isEmpty then .done else .entry (.space name) .done .done
  | _ => .done

mutual

def Stmt.nest : Stmt → Nest
  | .classDecl d => .entry (.classType d.name) (nestMembers d.name d.members) .done
  | .interfaceDecl d => .entry (.interfaceType d.name) (nestMembers d.name d.members) .done
  | .functionDecl d => .entry (.function d.name) (nestStmts d.body) .done
  | s => s.opened ++ nestBodies s.bodies
termination_by s => 2 * sizeOf s
decreasing_by
  · cases d; simp; omega
  · cases d; simp; omega
  · cases d; simp; omega
  · have less := s.sizeOf_bodies_lt; omega

def nestStmts : List Stmt → Nest
  | [] => .done
  | s :: rest => s.nest ++ nestStmts rest
termination_by body => 2 * sizeOf body

def nestBodies : List (List Stmt) → Nest
  | [] => .done
  | body :: rest => nestStmts body ++ nestBodies rest
termination_by bodies => 2 * (bodies.map sizeOf).sum + 1
decreasing_by
  all_goals
    have sizes := Stmt.sizeOf_bodies_cons body rest
    omega

def nestMembers (owner : String) : List Member → Nest
  | [] => .done
  | m :: rest => m.nest owner ++ nestMembers owner rest
termination_by members => 2 * sizeOf members

def Member.nest (owner : String) : Member → Nest
  | .method d => .entry (.method owner d.name) (nestStmts (d.body.getD [])) .done
  | .property d => .entry (.property owner d.name) .done .done
  | .constant _ => .done
termination_by m => 2 * sizeOf m
decreasing_by
  cases d with
  | mk _ _ _ _ _ body _ =>
    cases body <;>
      simp only [Member.method.sizeOf_spec, MethodDecl.mk.sizeOf_spec, Option.getD_none, Option.getD_some,
        Option.none.sizeOf_spec, Option.some.sizeOf_spec, List.nil.sizeOf_spec] <;> omega

end

def SourceFile.nest (file : SourceFile) : Nest := nestStmts file.statements

/-- A statement that declares no type or function has the declarations in its bodies. -/
theorem Stmt.nest_of_other {s : Stmt} (h : s.isDeclaration = false)
    : s.nest = s.opened ++ nestBodies s.bodies := by
  unfold Stmt.nest
  split <;> first | rfl | simp [Stmt.isDeclaration] at h

-- Drafts

/-- How a draft is assembled that nests its declarations in this way, those of a type apart from all
others. The owner is the type that they are members of. -/
inductive Assembled (source : String → Part → Prop)
    : Option String → Nest → {α : Type} → (List NodeId → Drafted α) → Prop
  | nothing {owner : Option String} {α : Type} (a : α)
    : Assembled source owner .done fun _ => ({ value := a } : Drafted α)
  | opening {path : String} {s : Stmt} (here : source path (.stmt s))
    : Assembled source none s.opened fun _ => (⟨(), s.opening path, []⟩ : Drafted Unit)
  | map {owner : Option String} {n : Nest} {α β : Type} {d : List NodeId → Drafted α} (f : α → β)
      (h : Assembled source owner n d)
    : Assembled source owner n fun known => (d known).map f
  | both {owner : Option String} {n next : Nest} {α β γ : Type} {first : List NodeId → Drafted α}
      {rest : List NodeId → Drafted β} (f : α → β → γ) (left : Assembled source owner n first)
      (right : Assembled source owner next rest)
    : Assembled source owner (n ++ next) fun known =>
        .both f (first known) (rest (known ++ (first known).outline.ids))
  | type {path : String} {p : Part} {scope : Binding.TypeScope} {members : List Member}
      {t : TypeNode} {n : Nest} {α : Type} {bare bound : α} (here : source path p)
      (stands : Stands path p (.type t)) (declares : p.scope? = some (scope, members))
      (bodies : ∀ m ∈ members,
        Assembled source none (nestStmts m.statements) fun known => draftStmts path known m.statements)
      (inner : Assembled source (some scope.name) n fun known => draftMembers path scope known members)
    : Assembled source none (.entry t.id n .done) fun known =>
        .declare known t.id bare bound (fun _ => .type t)
          (draftMembers path scope (known ++ [t.id]) members)
  | callable {owner : Option String} {id : NodeId} {n : Nest} {α β : Type} {bare bound : β}
      {node : α → Node} {inside : List NodeId → Drafted α}
      (same : ∀ a, (node a).id = id ∧ (node a).isSpace = false ∧ (node a).owner? = owner
        ∧ (node a).scope? = none)
      (origin : ∀ known, ∃ path p, source path p ∧ Stands path p (node (inside known).value))
      (inner : Assembled source none n inside)
    : Assembled source owner (.entry id n .done) fun known =>
        .declare known id bare bound node (inside (known ++ [id]))

section

variable {source : String → Part → Prop}

theorem assembled_draftStmts {body : List Stmt}
    (each : ∀ s ∈ body, Assembled source none s.nest fun known => draftStmt path known s)
    : Assembled source none (nestStmts body) fun known => draftStmts path known body := by
  induction body with
  | nil =>
    simp only [nestStmts, draftStmts]
    exact .nothing []
  | cons s rest ih =>
    simp only [nestStmts, draftStmts]
    exact .both _ (each s (by simp)) (ih fun t member => each t (by simp [member]))

theorem assembled_draftBodies {bodies : List (List Stmt)}
    (each : ∀ body ∈ bodies, ∀ s ∈ body,
      Assembled source none s.nest fun known => draftStmt path known s)
    : Assembled source none (nestBodies bodies) fun known => draftBodies path known bodies := by
  induction bodies with
  | nil =>
    simp only [nestBodies, draftBodies]
    exact .nothing []
  | cons body rest ih =>
    simp only [nestBodies, draftBodies]
    exact .both _ (assembled_draftStmts (each body (by simp)))
      (ih fun b member => each b (by simp [member]))

theorem assembled_draftBody {body : Option (List Stmt)}
    (each : ∀ s ∈ body.getD [], Assembled source none s.nest fun known => draftStmt path known s)
    : Assembled source none (nestStmts (body.getD [])) fun known => draftBody path known body := by
  cases body with
  | none =>
    simp only [Option.getD_none, nestStmts, draftBody]
    exact .nothing none
  | some body =>
    simp only [Option.getD_some, draftBody]
    exact .map some (assembled_draftStmts each)

variable {scope : Binding.TypeScope} {declared : List Member}

theorem assembled_draftMember (here : source path p) (declares : p.scope? = some (scope, declared))
    {m : Member} (member : m ∈ declared)
    (each : ∀ s ∈ m.statements, Assembled source none s.nest fun known => draftStmt path known s)
    : Assembled source (some scope.name) (m.nest scope.name) fun known =>
        draftMember path scope known m := by
  cases m with
  | method d =>
    simp only [Member.nest, draftMember]
    refine .callable ?_ ?_ (assembled_draftBody each)
    · exact fun _ => ⟨rfl, rfl, rfl, rfl⟩
    · exact fun known => ⟨path, p, here, .method declares member known⟩
  | property d =>
    simp only [Member.nest, draftMember]
    exact .callable (fun _ => ⟨rfl, rfl, rfl, rfl⟩)
      (fun _ => ⟨path, p, here, .property declares member⟩) (.nothing ())
  | constant d =>
    simp only [Member.nest, draftMember]
    exact .nothing ()

theorem assembled_draftMembers (here : source path p) (declares : p.scope? = some (scope, declared))
    {members : List Member} (sub : members ⊆ declared)
    (each : ∀ m ∈ members, ∀ s ∈ m.statements,
      Assembled source none s.nest fun known => draftStmt path known s)
    : Assembled source (some scope.name) (nestMembers scope.name members) fun known =>
        draftMembers path scope known members := by
  induction members with
  | nil =>
    simp only [nestMembers, draftMembers]
    exact .nothing ()
  | cons m rest ih =>
    simp only [nestMembers, draftMembers]
    exact .both _ (assembled_draftMember here declares (sub (by simp)) (each m (by simp)))
      (ih (fun x member => sub (by simp [member])) fun x member => each x (by simp [member]))

/-- The draft of a statement is assembled from those of its declarations, by induction on the bodies in
the statement. -/
theorem assembled_draftStmt (s : Stmt)
    : s.Everywhere (source path)
      → Assembled source none s.nest fun known => draftStmt path known s := by
  induction s using Stmt.bodyInduction with
  | classDecl d ih | interfaceDecl d ih =>
    intro h
    have bodies (m : Member) (member : m ∈ d.members) (s : Stmt) (inside : s ∈ m.statements) :=
      ih m member s inside (h.held s (List.mem_flatMap.mpr ⟨m, member, inside⟩))
    simp only [Stmt.nest, draftStmt]
    exact .type h.self (by constructor) rfl (fun m member => assembled_draftStmts (bodies m member))
      (assembled_draftMembers h.self rfl (List.Subset.refl _) bodies)
  | functionDecl d ih =>
    intro h
    simp only [Stmt.nest, draftStmt]
    refine .callable ?_ ?_ (assembled_draftStmts fun s member => ih s member (h.held s member))
    · exact fun _ => ⟨rfl, rfl, rfl, rfl⟩
    · exact fun known => ⟨path, _, h.self, .function d known⟩
  | other s kind ih =>
    intro h
    simp only [Stmt.nest_of_other kind, draftStmt_of_other kind]
    exact .both _ (.opening h.self) (assembled_draftBodies fun body member t inside =>
      ih body member t inside (h.bodies body member t inside))

end

end DesignMetrics
