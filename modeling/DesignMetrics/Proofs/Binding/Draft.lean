import DesignMetrics.Model.Binding
import DesignMetrics.Proofs.Registry.ListView
import DesignMetrics.Proofs.Syntax.Declarations

/-! Binding without a registry.
Whether a declaration is bound depends on the identifiers before it alone, so binding is a function
of the source and of a list of identifiers. The nodes come as an outline, which keeps which of them
was declared inside which; each has its body from the start.
-/

namespace DesignMetrics

/-- Declared nodes in the order of the source, each with what is declared inside it. -/
inductive Outline where
  | done
  | entry (node : Node) (inside after : Outline)

namespace Outline

def nodes : Outline → List Node
  | done => []
  | entry node inside after => node :: (inside.nodes ++ after.nodes)

def ids (o : Outline) : List NodeId := o.nodes.map Node.id

def roots : Outline → List Node
  | done => []
  | entry node _ after => node :: after.roots

def entries : Outline → List (Node × Outline)
  | done => []
  | entry n inside after => (n, inside) :: (inside.entries ++ after.entries)

def append : Outline → Outline → Outline
  | done, next => next
  | entry node inside after, next => entry node inside (after.append next)

instance : Append Outline := ⟨append⟩

@[simp] theorem done_append (o : Outline) : done ++ o = o := rfl

@[simp] theorem entry_append (node : Node) (inside after next : Outline)
    : entry node inside after ++ next = entry node inside (after ++ next) := rfl

@[simp] theorem append_done (o : Outline) : o ++ done = o := by
  induction o with
  | done => rfl
  | entry node inside after _ ih => rw [entry_append, ih]

theorem append_assoc (a b c : Outline) : a ++ b ++ c = a ++ (b ++ c) := by
  induction a with
  | done => rfl
  | entry node inside after _ ih => simp only [entry_append, ih]

@[simp] theorem nodes_done : done.nodes = [] := rfl

@[simp] theorem nodes_entry (node : Node) (inside after : Outline)
    : (entry node inside after).nodes = node :: (inside.nodes ++ after.nodes) := rfl

@[simp] theorem nodes_append (o next : Outline) : (o ++ next).nodes = o.nodes ++ next.nodes := by
  induction o with
  | done => rfl
  | entry node inside after _ ih => simp [ih]

@[simp] theorem ids_done : done.ids = [] := rfl

@[simp] theorem ids_entry (node : Node) (inside after : Outline)
    : (entry node inside after).ids = node.id :: (inside.ids ++ after.ids) := by
  simp [ids]

@[simp] theorem ids_append (o next : Outline) : (o ++ next).ids = o.ids ++ next.ids := by
  simp [ids]

@[simp] theorem roots_done : done.roots = [] := rfl

@[simp] theorem roots_entry (node : Node) (inside after : Outline)
    : (entry node inside after).roots = node :: after.roots := rfl

@[simp] theorem roots_append (o next : Outline) : (o ++ next).roots = o.roots ++ next.roots := by
  induction o with
  | done => rfl
  | entry node inside after _ ih => simp [ih]

@[simp] theorem entries_done : done.entries = [] := rfl

@[simp] theorem entries_entry (n : Node) (inside after : Outline)
    : (entry n inside after).entries = (n, inside) :: (inside.entries ++ after.entries) := rfl

theorem map_fst_entries (o : Outline) : o.entries.map Prod.fst = o.nodes := by
  induction o with
  | done => rfl
  | entry n inside after inside_ih after_ih => simp [inside_ih, after_ih]

theorem entries_append (o next : Outline) : (o ++ next).entries = o.entries ++ next.entries := by
  induction o with
  | done => rfl
  | entry node inside after _ ih => simp [ih]

end Outline

/-- Whether an identifier stands for something already. -/
def Taken (known : List NodeId) (id : NodeId) : Prop := ∃ other ∈ known, other.Alike id

instance (known : List NodeId) (id : NodeId) : Decidable (Taken known id) :=
  inferInstanceAs (Decidable (∃ other ∈ known, _))

variable {known : List NodeId}

@[simp] theorem taken_append {more : List NodeId} {id : NodeId}
    : Taken (known ++ more) id ↔ Taken known id ∨ Taken more id := by
  simp [Taken, or_and_right, exists_or]

@[simp] theorem taken_cons {first : NodeId} {id : NodeId}
    : Taken (first :: known) id ↔ first.Alike id ∨ Taken known id := by
  simp [Taken]

@[simp] theorem not_taken_nil (id : NodeId) : ¬ Taken [] id := by
  simp [Taken]

theorem taken_of_mem {id : NodeId} (h : id ∈ known) : Taken known id :=
  ⟨id, h, .refl id⟩

theorem Taken.of_alike {a b : NodeId} (h : Taken known a) (alike : a.Alike b) : Taken known b := by
  obtain ⟨other, member, same⟩ := h
  exact ⟨other, member, same.trans alike⟩

/-- What binding makes of a piece of source. -/
structure Drafted (α : Type) where
  value : α
  outline : Outline := .done
  shadowed : List NodeId := []

namespace Drafted

variable {α β γ : Type}

/-- One draft after the other. -/
def both (f : α → β → γ) (first : Drafted α) (rest : Drafted β) : Drafted γ :=
  ⟨f first.value rest.value, first.outline ++ rest.outline, first.shadowed ++ rest.shadowed⟩

def map (f : α → β) (d : Drafted α) : Drafted β := ⟨f d.value, d.outline, d.shadowed⟩

def declare (known : List NodeId) (id : NodeId) (bare bound : β) (node : α → Node)
    (inside : Drafted α) : Drafted β :=
  if Taken known id then ⟨bare, .done, [id]⟩
  else ⟨bound, .entry (node inside.value) inside.outline .done, inside.shadowed⟩

def each (draft : List NodeId → α → Drafted β) (known : List NodeId) : List α → Drafted (List β)
  | [] => { value := [] }
  | a :: rest =>
    .both .cons (draft known a) (each draft (known ++ (draft known a).outline.ids) rest)

end Drafted

def Stmt.opening (path : String) : Stmt → Outline
  | .inNamespace ⟨some name, _, span⟩ =>
    if name.isEmpty then .done
    else
      .entry (.space
        { id := .space name, name, userDefined := true, location := some (.ofSpan path span) })
        .done .done
  | _ => .done

open Binding in
mutual

def draftStmt (path : String) (known : List NodeId) : Stmt → Drafted Stmt
  | .classDecl d =>
    .declare known (.classType d.name) (.classDecl d) (.declared (.classType d.name))
      (fun _ => .type (classNode path d))
      (draftMembers path ⟨d.name, d.parent⟩ (known ++ [.classType d.name]) d.members)
  | .interfaceDecl d =>
    .declare known (.interfaceType d.name) (.interfaceDecl d) (.declared (.interfaceType d.name))
      (fun _ => .type (interfaceNode path d))
      (draftMembers path ⟨d.name, none⟩ (known ++ [.interfaceType d.name]) d.members)
  | .functionDecl d =>
    .declare known (.function d.name) (.functionDecl d) (.declared (.function d.name))
      (fun body => .function { functionNode path d with body })
      (draftStmts path (known ++ [.function d.name]) d.body)
  | s =>
    .both (fun _ new => s.rebuild new) ⟨(), s.opening path, []⟩
      (draftBodies path (known ++ (s.opening path).ids) s.bodies)
termination_by s => 2 * sizeOf s
decreasing_by
  · cases d; simp; omega
  · cases d; simp; omega
  · cases d; simp; omega
  · have less := s.sizeOf_bodies_lt; omega

def draftStmts (path : String) (known : List NodeId) : List Stmt → Drafted (List Stmt)
  | [] => { value := [] }
  | s :: rest =>
    .both .cons (draftStmt path known s)
      (draftStmts path (known ++ (draftStmt path known s).outline.ids) rest)
termination_by body => 2 * sizeOf body

def draftBodies (path : String) (known : List NodeId) : List (List Stmt) → Drafted (List (List Stmt))
  | [] => { value := [] }
  | body :: rest =>
    .both .cons (draftStmts path known body)
      (draftBodies path (known ++ (draftStmts path known body).outline.ids) rest)
termination_by bodies => 2 * (bodies.map sizeOf).sum + 1
decreasing_by
  all_goals
    have sizes := Stmt.sizeOf_bodies_cons body rest
    omega

def draftMembers (path : String) (scope : TypeScope) (known : List NodeId)
    : List Member → Drafted Unit
  | [] => { value := () }
  | m :: rest =>
    .both (fun _ _ => ()) (draftMember path scope known m)
      (draftMembers path scope (known ++ (draftMember path scope known m).outline.ids) rest)
termination_by members => 2 * sizeOf members

def draftMember (path : String) (scope : TypeScope) (known : List NodeId) : Member → Drafted Unit
  | .method d =>
    .declare known (.method scope.name d.name) () ()
      (fun body => .method { methodNode path scope d with body })
      (draftBody path (known ++ [.method scope.name d.name]) d.body)
  | .property d =>
    .declare known (.property scope.name d.name) () ()
      (fun _ => .property (propertyNode path scope d)) { value := () }
  | .constant _ => { value := () }
termination_by m => 2 * sizeOf m
decreasing_by cases d; simp; omega

def draftBody (path : String) (known : List NodeId)
    : Option (List Stmt) → Drafted (Option (List Stmt))
  | none => { value := none }
  | some body => (draftStmts path known body).map some
termination_by body => 2 * sizeOf body

end

theorem draftStmts_eq (path : String) (known : List NodeId) (body : List Stmt)
    : draftStmts path known body = .each (draftStmt path) known body := by
  induction body generalizing known with
  | nil => rw [draftStmts, Drafted.each]
  | cons s rest ih => rw [draftStmts, Drafted.each, ih]

theorem draftBodies_eq (path : String) (known : List NodeId) (bodies : List (List Stmt))
    : draftBodies path known bodies = .each (draftStmts path) known bodies := by
  induction bodies generalizing known with
  | nil => rw [draftBodies, Drafted.each]
  | cons body rest ih => rw [draftBodies, Drafted.each, ih]

theorem draftMembers_eq (path : String) (scope : Binding.TypeScope) (known : List NodeId)
    (members : List Member)
    : draftMembers path scope known members
      = (Drafted.each (draftMember path scope) known members).map fun _ => () := by
  induction members generalizing known with
  | nil => rw [draftMembers, Drafted.each, Drafted.map]
  | cons m rest ih =>
    rw [draftMembers, Drafted.each, ih, Drafted.both, Drafted.both, Drafted.map, Drafted.map]

/-- A statement that declares nothing itself is drafted body by body. -/
theorem draftStmt_of_other {path : String} {s : Stmt} (h : s.isDeclaration = false)
    : draftStmt path known s
      = .both (fun _ new => s.rebuild new) ⟨(), s.opening path, []⟩
          (draftBodies path (known ++ (s.opening path).ids) s.bodies) := by
  unfold draftStmt
  split <;> first | rfl | simp [Stmt.isDeclaration] at h

theorem draftStmt_of_closed {path : String} {s : Stmt} (h : s.isDeclaration = false)
    (closed : s.opening path = .done)
    : draftStmt path known s = (draftBodies path known s.bodies).map s.rebuild := by
  rw [draftStmt_of_other h, closed]
  simp [Drafted.both, Drafted.map]

theorem length_draftBodies (path : String) (known : List NodeId) (bodies : List (List Stmt))
    : (draftBodies path known bodies).value.length = bodies.length := by
  induction bodies generalizing known with
  | nil => rw [draftBodies]
  | cons body bodies ih => simp [draftBodies, Drafted.both, ih]

end DesignMetrics
