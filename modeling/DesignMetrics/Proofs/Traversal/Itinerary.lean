import DesignMetrics.Proofs.Syntax.Declarations
import DesignMetrics.Traversal.Walk

/-! Walks by what is written.
Units, parts of bodies and the names in member lists are the items of a walk. It goes through them one
after the other, visits each with the items that are written in it, and ends where it fails. What
follows from this alone holds of every walk, to any depth.
-/

namespace DesignMetrics

variable {α : Type} {p : Part}

namespace Walk

/-- One walk for each item has no fault if none of them has one. -/
theorem each_fault_iff {walk : α → Walk} {items : List α}
    : (each walk items).fault = none ↔ ∀ a ∈ items, (walk a).fault = none := by
  induction items with
  | nil => simp [each, done]
  | cons a items ih =>
    unfold each
    cases first : (walk a).fault <;> simp [first, ih]

theorem each_events {walk : α → Walk} {items : List α} (h : (each walk items).fault = none)
    : (each walk items).events = items.flatMap fun a => (walk a).events := by
  induction items with
  | nil => rfl
  | cons a items ih =>
    have first := each_fault_iff.mp h a (by simp)
    have rest := each_fault_iff.mpr fun b member =>
      each_fault_iff.mp h b (List.mem_cons_of_mem _ member)
    simp only [each, first, ih rest, List.flatMap_cons]

@[simp] theorem inside_fault (v : Visit) (inner : Walk) : (inside v inner).fault = inner.fault := by
  unfold inside
  split <;> simp_all

theorem each_attach (items : List α) (walk : α → Walk)
    : each (fun a : { a // a ∈ items } => walk a.1) items.attach = each walk items := by
  have strip (l : List { a // a ∈ items }) : each (fun a => walk a.1) l = each walk (l.map (·.1)) := by
    induction l with
    | nil => rfl
    | cons a l ih => simp only [each, List.map_cons, ih]
  rw [strip, List.attach_map_subtype_val]

-- One walk after another

def andThen (first next : Walk) : Walk :=
  match first.fault with
  | some _ => first
  | none => ⟨first.events ++ next.events, next.fault⟩

theorem andThen_done (w : Walk) : w.andThen done = w := by
  obtain ⟨events, fault⟩ := w
  cases fault <;> simp [andThen, done]

theorem andThen_assoc (a b c : Walk) : (a.andThen b).andThen c = a.andThen (b.andThen c) := by
  cases first : a.fault with
  | some _ => simp [andThen, first]
  | none => cases second : b.fault <;> simp [andThen, first, second]

theorem andThen_fault_iff {a b : Walk}
    : (a.andThen b).fault = none ↔ a.fault = none ∧ b.fault = none := by
  cases first : a.fault <;> simp [andThen, first]

theorem andThen_events {a b : Walk} (fine : a.fault = none)
    : (a.andThen b).events = a.events ++ b.events := by
  simp [andThen, fine]

end Walk

-- What is entered in bodies

/-- What is entered at a part itself: nothing at markers and bare declarations. -/
def Part.visit? (r : Registry) : Part → Option Visit
  | .stmt (.declared _) | .stmt (.classDecl _) | .stmt (.interfaceDecl _)
  | .stmt (.functionDecl _) => none
  | .stmt (.inNamespace decl) => some (.space (r.namespaceNamed (decl.name.getD "")))
  | .stmt s => some (.stmt s)
  | .expr e => some (.expr e)

theorem Part.children_eq_nil {r : Registry} (h : p.visit? r = none) : p.children = [] := by
  unfold visit? at h
  split at h <;> first | rfl | simp at h

theorem Part.eq_of_marker? {id : NodeId} (h : p.marker? = some id) : p = .stmt (.declared id) := by
  unfold marker? at h
  split at h <;> simp_all

/-- What is not visited and leads nowhere is a declaration. -/
theorem Part.isDeclaration_of_visit? {r : Registry} (marker : p.marker? = none)
    (visit : p.visit? r = none) : ∃ s : Stmt, p = .stmt s ∧ s.isDeclaration := by
  unfold visit? at visit
  split at visit
  · simp [marker?] at marker
  · exact ⟨_, rfl, rfl⟩
  · exact ⟨_, rfl, rfl⟩
  · exact ⟨_, rfl, rfl⟩
  all_goals simp at visit

/-- The walk through a part goes to the node of a marker, into the children of what is entered, and
nowhere else.
-/
theorem Walk.part_eq (r : Registry) (declared : NodeId → Walk) (p : Part)
    : part r declared p
      = match p.marker?, p.visit? r with
        | some id, _ => declared id
        | none, some v => inside v (each (part r declared) p.children)
        | none, none => done := by
  have inner (p : Part) := each_attach p.children (part r declared)
  cases p with
  | expr e =>
    rw [part]
    exact congrArg _ (inner (.expr e))
  | stmt s =>
    cases s with
    | declared | classDecl | interfaceDecl | functionDecl => rw [part]; rfl
    | inNamespace decl =>
      rw [part]
      exact congrArg _ (inner (.stmt (.inNamespace decl)))
    | _ =>
      rw [part]
      · exact congrArg _ (inner (.stmt _))
      all_goals simp

-- What is written where

/-- What may be written in something: a unit in the list of units, a statement or an expression in
code, and the identifier of a member in a type.
-/
inductive Item where
  | unit (unit : CompilationUnit)
  | part (part : Part)
  | member (id : NodeId)

/-- The items of a body. -/
def bodyItems (body : List Stmt) : List Item := (Part.stmts body).map .part

/-- Whether an item is visited as the given visit, and what is written in it then. A marker leads to a
type or a function, an identifier in a member list to a method or a property.
-/
inductive Visited (r : Registry) : Item → Visit → List Item → Prop
  | unit (u : CompilationUnit) : Visited r (.unit u) (.unit u) (bodyItems u.statements)
  | part {p : Part} {v : Visit} (visit : p.visit? r = some v)
    : Visited r (.part p) v (p.children.map .part)
  | type {id : NodeId} {t : TypeNode} (found : r.node? id = some (.type t))
    : Visited r (.part (.stmt (.declared id))) (.type t) (t.members.map .member)
  | function {id : NodeId} {f : FunctionNode} (found : r.node? id = some (.function f))
    : Visited r (.part (.stmt (.declared id))) (.function f) (bodyItems f.body)
  | method {id : NodeId} {m : MethodNode} (found : r.node? id = some (.method m))
    : Visited r (.member id) (.method m) (bodyItems (m.body.getD []))
  | property {id : NodeId} {p : PropertyNode} (found : r.node? id = some (.property p))
    : Visited r (.member id) (.property p) []

-- Walks through items

/-- How a walk goes through items, one after the other. -/
inductive Walked (r : Registry) : List Item → Walk → Prop
  | done : Walked r [] .done
  | bare {s : Stmt} {items : List Item} {w : Walk} (declares : s.isDeclaration)
    : Walked r items w → Walked r (.part (.stmt s) :: items) w
  | failed {item : Item} {items : List Item} (fault : WalkFault)
    : Walked r (item :: items) (.failed fault)
  | visit {item : Item} {v : Visit} {written items : List Item} {inner rest : Walk}
    : Visited r item v written → Walked r written inner → Walked r items rest
      → Walked r (item :: items) ((Walk.inside v inner).andThen rest)

namespace Walked

variable {r : Registry} {items more : List Item} {w next : Walk}

theorem append (first : Walked r items w) (second : Walked r more next)
    : Walked r (items ++ more) (w.andThen next) := by
  induction first with
  | done => exact second
  | bare declares _ ih => exact .bare declares ih
  | failed fault => exact .failed fault
  | visit visited inner _ _ ih =>
    rw [Walk.andThen_assoc]
    exact .visit visited inner ih

theorem each {walk : α → Walk} {item : α → Item} {l : List α}
    (h : ∀ a ∈ l, Walked r [item a] (walk a)) : Walked r (l.map item) (Walk.each walk l) := by
  induction l with
  | nil => exact .done
  | cons a l ih =>
    exact (h a List.mem_cons_self).append (ih fun b member => h b (List.mem_cons_of_mem _ member))

theorem inside {item : Item} {v : Visit} {written : List Item} (visited : Visited r item v written)
    (inner : Walked r written w) : Walked r [item] (Walk.inside v w) := by
  rw [← Walk.andThen_done (Walk.inside v w)]
  exact .visit visited inner .done

section

variable {declared : NodeId → Walk}
variable (marked : ∀ id, Walked r [.part (.stmt (.declared id))] (declared id))

include marked

/-- By induction on the size of the part. -/
theorem part (p : Part) : Walked r [.part p] (Walk.part r declared p) := by
  rw [Walk.part_eq]
  split
  · rename_i marker
    obtain rfl := Part.eq_of_marker? marker
    exact marked _
  · rename_i v _ visit
    refine .inside (.part visit) (.each fun q child => ?_)
    have := Part.sizeOf_lt_of_mem_children child
    exact part q
  · rename_i marker visit
    obtain ⟨s, rfl, declares⟩ := Part.isDeclaration_of_visit? marker visit
    exact .bare declares .done
termination_by sizeOf p

theorem stmts (body : List Stmt) : Walked r (bodyItems body) (Walk.stmts r declared body) := by
  rw [bodyItems, Part.stmts, List.map_map]
  exact .each fun s _ => part marked (.stmt s)

theorem member (owner id : NodeId) : Walked r [.member id] (Walk.member r declared owner id) := by
  unfold Walk.member
  split
  · rename_i m found
    exact .inside (.method found) (stmts marked _)
  · rename_i p found
    exact .inside (.property found) .done
  · exact .failed _

end

/-- A walk to a declaration goes through the marker that leads there, by induction on its depth. -/
theorem declaration (r : Registry) (depth : Nat) (id : NodeId)
    : Walked r [.part (.stmt (.declared id))] (Walk.declaration r depth id) := by
  induction depth generalizing id with
  | zero => exact .failed _
  | succ depth ih =>
    unfold Walk.declaration
    split
    · rename_i t found
      exact .inside (.type found) (.each fun m _ => member ih t.id m)
    · rename_i f found
      exact .inside (.function found) (stmts ih f.body)
    · exact .failed _
    · exact .failed _

theorem unit (r : Registry) (depth : Nat) (u : CompilationUnit)
    : Walked r [.unit u] (Walk.unit r depth u) :=
  .inside (.unit u) (stmts (declaration r depth) u.statements)

theorem unitsTo (r : Registry) (depth : Nat) (units : List CompilationUnit)
    : Walked r (units.map .unit) (Walk.unitsTo r depth units) :=
  .each fun u _ => unit r depth u

end Walked

end DesignMetrics
