import Mathlib.Data.List.Forall2
import DesignMetrics.Proofs.Traversal.Tour

/-! Walks as far as they are seen.
What a walk meets may be seen in part, or through something. Walks are seen alike if the nodes that
they pass through are, one by one, and the bodies of these nodes.
-/

namespace DesignMetrics

open List (Forall₂)

/-- Items that are the same one by one, through something. -/
theorem forall₂_of_map_eq {α β γ : Type} {f : α → γ} {g : β → γ} {items : List α} {items' : List β}
    (same : items.map f = items'.map g) : Forall₂ (fun a b => f a = g b) items items' := by
  have equal : Forall₂ Eq (items.map f) (items'.map g) := by rw [List.forall₂_eq_eq_eq, same]
  simpa only [List.forall₂_map_left_iff, List.forall₂_map_right_iff] using equal

def Event.seen? (see : Visit → Option Visit) : Event → Option Event
  | .enter v => (see v).map .enter
  | .leave v => (see v).map .leave

namespace Walk

def seen (see : Visit → Option Visit) (w : Walk) : Walk :=
  ⟨w.events.filterMap (Event.seen? see), w.fault⟩

variable {see : Visit → Option Visit}

theorem seen_inside {v v' : Visit} (h : see v = some v') (inner : Walk)
    : (inside v inner).seen see = inside v' (inner.seen see) := by
  have fault : (inner.seen see).fault = inner.fault := rfl
  unfold inside
  rw [fault]
  cases inner.fault <;> simp [seen, Event.seen?, h]

/-- What is inside of something that is not seen is seen as if it stood there alone. -/
theorem seen_inside_of_none {v : Visit} (h : see v = none) (inner : Walk)
    : (inside v inner).seen see = inner.seen see := by
  unfold inside
  cases fault : inner.fault <;> simp [seen, Event.seen?, h, fault]

/-- What is seen alike around walks that are seen alike. -/
theorem seen_inside_congr {see see' : Visit → Option Visit} {v v' : Visit} (same : see v = see' v')
    {inner inner' : Walk} (walks : inner.seen see = inner'.seen see')
    : (inside v inner).seen see = (inside v' inner').seen see' := by
  cases left : see v with
  | none => rw [seen_inside_of_none left, seen_inside_of_none (same ▸ left), walks]
  | some w => rw [seen_inside left, seen_inside (same ▸ left), walks]

theorem seen_each {α : Type} (walk : α → Walk) (items : List α)
    : (each walk items).seen see = each (fun a => (walk a).seen see) items := by
  induction items with
  | nil => rfl
  | cons a items ih =>
    have fault : ((walk a).seen see).fault = (walk a).fault := rfl
    simp only [each]
    rw [fault, ← ih]
    cases (walk a).fault <;> simp [seen]

theorem seen_each_congr {see see' : Visit → Option Visit} {α β : Type} {walk : α → Walk}
    {walk' : β → Walk} {items : List α} {items' : List β}
    (same : Forall₂ (fun a b => (walk a).seen see = (walk' b).seen see') items items')
    : (each walk items).seen see = (each walk' items').seen see' := by
  rw [seen_each, seen_each]
  induction same with
  | nil => simp only [each]
  | cons here _ ih => simp only [each, here, ih]

section

variable {r r' : Registry} {declared declared' : NodeId → Walk} {S : Part → Part → Prop}

/-- Parts are seen alike if they lead to parts and markers that are. The induction is on the size of the
first.
-/
theorem seen_part (same : ∀ id, (declared id).seen see = (declared' id).seen see)
    (children : ∀ {p p'}, S p p' → Forall₂ S p.children p'.children)
    (markers : ∀ {p p'}, S p p' → p.marker? = p'.marker?)
    (visits : ∀ {p p'}, S p p' → (p.visit? r).map see = (p'.visit? r').map see) (p : Part) {p' : Part}
    (related : S p p') : (part r declared p).seen see = (part r' declared' p').seen see := by
  have inner : (each (part r declared) p.children).seen see
      = (each (part r' declared') p'.children).seen see := by
    have inside := (List.forall₂_and_left _ _).mpr ⟨fun q (child : q ∈ p.children) => child,
      children related⟩
    exact seen_each_congr (inside.imp fun q q' here =>
      have := Part.sizeOf_lt_of_mem_children here.1
      seen_part same children markers visits q here.2)
  have visited := visits related
  rw [part_eq, part_eq, ← markers related]
  cases p.marker? with
  | some id => exact same id
  | none =>
    cases left : p.visit? r with
    | none =>
      have right : p'.visit? r' = none := by simpa [left] using visited.symm
      rw [right]
    | some v =>
      obtain ⟨v', right, equal⟩ := Option.map_eq_some_iff.mp (visited.symm.trans (congrArg _ left))
      rw [right]
      exact seen_inside_congr equal.symm inner
termination_by sizeOf p

/-- Through the same bodies, walks are seen alike if what they enter at each part is. -/
theorem seen_stmts_of_visits (visits : ∀ p : Part, (p.visit? r).map see = (p.visit? r').map see)
    (same : ∀ id, (declared id).seen see = (declared' id).seen see) {body body' : List Stmt}
    (equal : body = body') : (stmts r declared body).seen see = (stmts r' declared' body').seen see := by
  subst equal
  refine seen_each_congr (List.forall₂_same.mpr fun s _ => ?_)
  refine seen_part (S := Eq) same ?_ ?_ ?_ (.stmt s) rfl
  · rintro p _ rfl
    exact List.forall₂_same.mpr fun _ _ => rfl
  · rintro p _ rfl
    rfl
  · rintro p _ rfl
    exact visits p

end

end Walk

/-- Nodes that are seen alike, with bodies that are related. -/
inductive Node.SeenAlike (see : Visit → Option Visit) (R : List Stmt → List Stmt → Prop)
    : Node → Node → Prop
  | space (n n' : NamespaceNode) : SeenAlike see R (.space n) (.space n')
  | type {t t' : TypeNode} (seen : see (.type t) = see (.type t')) (id : t.id = t'.id)
      (members : t.members = t'.members) : SeenAlike see R (.type t) (.type t')
  | method {m m' : MethodNode} (seen : see (.method m) = see (.method m'))
      (bodies : R (m.body.getD []) (m'.body.getD [])) : SeenAlike see R (.method m) (.method m')
  | function {f f' : FunctionNode} (seen : see (.function f) = see (.function f'))
      (bodies : R f.body f'.body) : SeenAlike see R (.function f) (.function f')
  | property {p p' : PropertyNode} (seen : see (.property p) = see (.property p'))
      : SeenAlike see R (.property p) (.property p')

/-- Registries in which identifiers stand for nodes that are seen alike. -/
structure Registry.SeenAlike (see : Visit → Option Visit) (R : List Stmt → List Stmt → Prop)
    (r r' : Registry) : Prop where
  size : r.size = r'.size
  node? (id : NodeId) : Option.Rel (Node.SeenAlike see R) (r.node? id) (r'.node? id)
  stmts {declared declared' : NodeId → Walk}
    (same : ∀ id, (declared id).seen see = (declared' id).seen see) {body body' : List Stmt}
    (related : R body body')
    : (Walk.stmts r declared body).seen see = (Walk.stmts r' declared' body').seen see

/-- Nodes that are the same through something are related if that makes them so. -/
theorem Node.rel_of_map {R : Node → Node → Prop} {f : Node → Node} (alike : ∀ n n', f n = f n' → R n n')
    {o o' : Option Node} (same : o.map f = o'.map f) : Option.Rel R o o' := by
  cases o <;> cases o' <;> simp only [Option.map_none, Option.map_some, reduceCtorEq] at same
  · exact .none
  · exact .some (alike _ _ (Option.some.inj same))

namespace Walk

variable {see : Visit → Option Visit} {R : List Stmt → List Stmt → Prop} {r r' : Registry}
variable (h : r.SeenAlike see R r')

include h

theorem seen_member {declared declared' : NodeId → Walk}
    (same : ∀ id, (declared id).seen see = (declared' id).seen see) (owner id : NodeId)
    : (member r declared owner id).seen see = (member r' declared' owner id).seen see := by
  have nodes := h.node? id
  unfold member
  generalize r.node? id = node, r'.node? id = node' at nodes
  cases nodes with
  | none => rfl
  | some alike =>
    cases alike with
    | method seen bodies => exact seen_inside_congr seen (h.stmts same bodies)
    | property seen => exact seen_inside_congr seen rfl
    | space | type | function => rfl

/-- The walk to a declaration, by induction on the number of nodes that it may pass through. -/
theorem seen_declaration (n : Nat) (id : NodeId)
    : (declaration r n id).seen see = (declaration r' n id).seen see := by
  induction n generalizing id with
  | zero => rfl
  | succ n ih =>
    have nodes := h.node? id
    unfold declaration
    generalize r.node? id = node, r'.node? id = node' at nodes
    cases nodes with
    | none => rfl
    | some alike =>
      cases alike with
      | type seen owner members =>
        simp only
        rw [owner, members]
        exact seen_inside_congr seen (seen_each_congr
          (List.forall₂_same.mpr fun m _ => seen_member h ih _ m))
      | function seen bodies => exact seen_inside_congr seen (h.stmts ih bodies)
      | space | method | property => rfl

theorem seen_units {us us' : List CompilationUnit}
    (same : Forall₂ (fun u u' => see (.unit u) = see (.unit u') ∧ R u.statements u'.statements) us us')
    : (units r us).seen see = (units r' us').seen see := by
  unfold units unitsTo
  rw [h.size]
  exact seen_each_congr (same.imp fun u u' here =>
    seen_inside_congr here.1 (h.stmts (seen_declaration h _) here.2))

end Walk

end DesignMetrics
