import DesignMetrics.Model.Node
import DesignMetrics.Proofs.Syntax.Bodies

/-! Declarations anywhere in a file.
The parts of a statement end at declarations, whose bodies belong to other nodes. Here they are
followed: what a file declares is looked for in closures and in the bodies of methods and functions
as well.
-/

namespace DesignMetrics

/-- The statements in the body of a method. -/
def Member.statements : Member → List Stmt
  | .method decl => decl.body.getD []
  | .property _ | .constant _ => []

/-- The statements in the bodies that a declaration comes with. -/
def Stmt.held : Stmt → List Stmt
  | .classDecl decl => decl.members.flatMap Member.statements
  | .interfaceDecl decl => decl.members.flatMap Member.statements
  | .functionDecl decl => decl.body
  | _ => []

theorem Member.sizeOf_lt_of_mem_statements {m : Member} {s : Stmt} (h : s ∈ m.statements)
    : sizeOf s < sizeOf m := by
  cases m with
  | method decl =>
    obtain ⟨_, _, _, _, _, body, _⟩ := decl
    cases body with
    | none => simp [statements] at h
    | some body =>
      have less : sizeOf s < sizeOf body := List.sizeOf_lt_of_mem h
      simp
      omega
  | property | constant => simp [statements] at h

/-- What a declaration holds is smaller than itself. -/
theorem Stmt.sizeOf_lt_of_mem_held {s t : Stmt} (h : t ∈ s.held) : sizeOf t < sizeOf s := by
  have members {ms : List Member} (inside : t ∈ ms.flatMap Member.statements)
      : sizeOf t < sizeOf ms := by
    obtain ⟨m, member, inner⟩ := List.mem_flatMap.mp inside
    have outer := List.sizeOf_lt_of_mem member
    have less := Member.sizeOf_lt_of_mem_statements inner
    omega
  cases s with
  | classDecl decl | interfaceDecl decl =>
    have less := members h
    cases decl
    simp at less ⊢
    omega
  | functionDecl decl =>
    have less : sizeOf t < sizeOf decl.body := List.sizeOf_lt_of_mem h
    cases decl
    simp at less ⊢
    omega
  | _ => simp [held] at h

namespace Part

/-- The parts that a declaration comes with. -/
def held : Part → List Part
  | stmt s => stmts s.held
  | expr _ => []

theorem sizeOf_lt_of_mem_held {p q : Part} (h : p ∈ q.held) : sizeOf p < sizeOf q := by
  cases q with
  | stmt s =>
    obtain ⟨t, member, rfl⟩ := List.mem_map.mp h
    simpa using Stmt.sizeOf_lt_of_mem_held member
  | expr e => simp [held] at h

def all (p : Part) : List Part :=
  p :: (p.children ++ p.held).attach.flatMap fun ⟨q, _⟩ => all q
termination_by sizeOf p
decreasing_by
  rename_i member
  rcases List.mem_append.mp member with child | inner
  · exact sizeOf_lt_of_mem_children child
  · exact sizeOf_lt_of_mem_held inner

theorem all_eq (p : Part) : p.all = p :: (p.children ++ p.held).flatMap all := by
  rw [all, List.flatMap_subtype (fun _ _ => rfl), List.unattach_attach]

@[simp] theorem self_mem_all (p : Part) : p ∈ p.all := by
  rw [all_eq]
  exact List.mem_cons_self

theorem mem_all_of_child {p q x : Part} (child : q ∈ p.children) (h : x ∈ q.all) : x ∈ p.all := by
  rw [all_eq]
  exact List.mem_cons_of_mem _ (List.mem_flatMap.mpr ⟨q, List.mem_append_left _ child, h⟩)

theorem mem_all_of_held {p q x : Part} (inner : q ∈ p.held) (h : x ∈ q.all) : x ∈ p.all := by
  rw [all_eq]
  exact List.mem_cons_of_mem _ (List.mem_flatMap.mpr ⟨q, List.mem_append_right _ inner, h⟩)

/-- Following declarations finds all that is found without. -/
theorem mem_all_of_mem_within {p x : Part} (h : x ∈ p.within) : x ∈ p.all := by
  rw [within_eq] at h
  rcases List.mem_cons.mp h with rfl | deeper
  · exact self_mem_all x
  · obtain ⟨q, child, inside⟩ := List.mem_flatMap.mp deeper
    exact mem_all_of_child child (mem_all_of_mem_within inside)
termination_by sizeOf p
decreasing_by exact sizeOf_lt_of_mem_children child

/-- Everything in what stands in a part stands in the part. -/
theorem all_trans {p q x : Part} (outer : q ∈ p.all) (inner : x ∈ q.all) : x ∈ p.all := by
  rw [all_eq] at outer
  rcases List.mem_cons.mp outer with rfl | deeper
  · exact inner
  · obtain ⟨y, below, found⟩ := List.mem_flatMap.mp deeper
    have smaller : sizeOf y < sizeOf p := (List.mem_append.mp below).elim
      sizeOf_lt_of_mem_children sizeOf_lt_of_mem_held
    rw [all_eq]
    exact List.mem_cons_of_mem _ (List.mem_flatMap.mpr ⟨y, below, all_trans found inner⟩)
termination_by sizeOf p

def type? : Part → Option (TypeKind × String)
  | stmt (.classDecl decl) => some (.classType, decl.name)
  | stmt (.interfaceDecl decl) => some (.interfaceType, decl.name)
  | _ => none

end Part

namespace Stmt

def Everywhere (P : Part → Prop) (s : Stmt) : Prop := ∀ p ∈ (Part.stmt s).all, P p

variable {P : Part → Prop} {s : Stmt}

theorem Everywhere.self (h : s.Everywhere P) : P (.stmt s) := h _ (Part.self_mem_all _)

/-- A property of everything in a statement is one of everything in its bodies. -/
theorem Everywhere.bodies (h : s.Everywhere P) : ∀ body ∈ s.bodies, ∀ t ∈ body, t.Everywhere P := by
  intro body member t inside p found
  have child : Part.stmt t ∈ s.parts.filter Part.isStmt := by
    rw [filter_parts]
    exact List.mem_map_of_mem (List.mem_flatten.mpr ⟨body, member, inside⟩)
  exact h p (Part.mem_all_of_child (p := .stmt s) (List.mem_filter.mp child).1 found)

/-- A property of everything in a declaration is one of everything in the bodies it comes with. -/
theorem Everywhere.held (h : s.Everywhere P) : ∀ t ∈ s.held, t.Everywhere P :=
  fun _ member p found =>
    h p (Part.mem_all_of_held (p := .stmt s) (List.mem_map_of_mem member) found)

/-- A statement without markers anywhere has none among its parts. -/
theorem Everywhere.markers_eq_nil (plain : ∀ p, P p → p.marker? = none) (h : s.Everywhere P)
    : (Part.stmt s).markers = [] := by
  rw [Part.markers, List.filterMap_eq_nil_iff]
  exact fun p found => plain p (h p (Part.mem_all_of_mem_within found))

end Stmt

def Node.links : Node → List NodeId
  | type t => t.members
  | method m => markersIn (m.body.getD [])
  | function f => markersIn f.body
  | space _ | property _ => []

def Stmt.isDeclaration : Stmt → Bool
  | .classDecl _ | .interfaceDecl _ | .functionDecl _ => true
  | _ => false

/-- Induction on statements, from the bodies in them. Expressions are not followed. -/
theorem Stmt.bodyInduction {P : Stmt → Prop}
    (classDecl : ∀ d : ClassDecl, (∀ m ∈ d.members, ∀ t ∈ m.statements, P t) → P (.classDecl d))
    (interfaceDecl : ∀ d : InterfaceDecl,
      (∀ m ∈ d.members, ∀ t ∈ m.statements, P t) → P (.interfaceDecl d))
    (functionDecl : ∀ d : FunctionDecl, (∀ t ∈ d.body, P t) → P (.functionDecl d))
    (other : ∀ s : Stmt, s.isDeclaration = false → (∀ body ∈ s.bodies, ∀ t ∈ body, P t) → P s)
    (s : Stmt) : P s := by
  have held (below : ∀ t ∈ s.held, P t) : s.isDeclaration → P s := by
    intro kind
    cases s with
    | classDecl d =>
      exact classDecl d fun m member t inside =>
        below t (List.mem_flatMap.mpr ⟨m, member, inside⟩)
    | interfaceDecl d =>
      exact interfaceDecl d fun m member t inside =>
        below t (List.mem_flatMap.mpr ⟨m, member, inside⟩)
    | functionDecl d => exact functionDecl d below
    | _ => simp [isDeclaration] at kind
  by_cases kind : s.isDeclaration
  · exact held (fun t inside =>
      have := sizeOf_lt_of_mem_held inside
      bodyInduction classDecl interfaceDecl functionDecl other t) kind
  · refine other s (by simpa using kind) fun body member t inside => ?_
    have less : sizeOf t < sizeOf s := by
      have bodies := s.sizeOf_bodies_lt
      have item := List.sizeOf_lt_of_mem inside
      obtain ⟨before, after, split⟩ := List.append_of_mem member
      simp [split] at bodies
      omega
    exact bodyInduction classDecl interfaceDecl functionDecl other t
termination_by sizeOf s

namespace SourceFile

/-- Everything that stands in a file. -/
def parts (file : SourceFile) : List Part := file.statements.flatMap fun s => (Part.stmt s).all

def types (file : SourceFile) : List (TypeKind × String) := file.parts.filterMap Part.type?

/-- A file that has not been bound. -/
def Unbound (file : SourceFile) : Prop := ∀ p ∈ file.parts, p.marker? = none

instance (file : SourceFile) : Decidable file.Unbound :=
  inferInstanceAs (Decidable (∀ p ∈ file.parts, p.marker? = none))

theorem everywhere (file : SourceFile)
    : ∀ s ∈ file.statements, s.Everywhere (· ∈ file.parts) :=
  fun s member _ found => List.mem_flatMap.mpr ⟨s, member, found⟩

/-- Everything in a part of a file is a part of it. -/
theorem mem_parts_of_held {file : SourceFile} {p : Part} (h : p ∈ file.parts) {s : Stmt}
    (inner : .stmt s ∈ p.held) : s.Everywhere (· ∈ file.parts) := by
  intro x found
  obtain ⟨t, member, inside⟩ := List.mem_flatMap.mp h
  exact List.mem_flatMap.mpr ⟨t, member, Part.all_trans inside (Part.mem_all_of_held inner found)⟩

end SourceFile

/-- Files in which no type name has a colon and no class is called like an interface. -/
structure Plain (files : List SourceFile) : Prop where
  names : ∀ file ∈ files, ∀ type ∈ file.types, ':' ∉ type.2.toList
  kinds : ∀ file ∈ files, ∀ type ∈ file.types, ∀ file' ∈ files, ∀ type' ∈ file'.types,
    Text.lower type.2 = Text.lower type'.2 → type.1 = type'.1

instance (files : List SourceFile) : Decidable (Plain files) :=
  decidable_of_iff
    ((∀ file ∈ files, ∀ type ∈ file.types, ':' ∉ type.2.toList)
      ∧ ∀ file ∈ files, ∀ type ∈ file.types, ∀ file' ∈ files, ∀ type' ∈ file'.types,
        Text.lower type.2 = Text.lower type'.2 → type.1 = type'.1)
    ⟨fun ⟨names, kinds⟩ => ⟨names, kinds⟩, fun plain => ⟨plain.names, plain.kinds⟩⟩

end DesignMetrics
