import DesignMetrics.Proofs.Binding.Built
import DesignMetrics.Proofs.Binding.Values
import DesignMetrics.Proofs.Metric.Completion
import DesignMetrics.Proofs.Metric.InheritedNames

/-! Classes that are named in the code of a class.
Binding keeps all expressions in the body of a method, also those in closures, and a walk meets them in the
scope of the class. The values of parameters, properties and constants are not kept, so whatever classes
they name, a class is not coupled to them.
-/

namespace DesignMetrics

-- Expressions in drafts

/-- Whether an expression stands in statements, in closures too, but in no declaration among them. -/
def IsExprIn (e : Expr) (body : List Stmt) : Prop := ∃ s ∈ body, .expr e ∈ (Part.stmt s).within

/-- Whether some item is in a draft is known from what is drafted. -/
theorem Drafted.exists_mem_each {α β : Type} {draft : List NodeId → α → Drafted β} {P : α → Prop}
    {Q : β → Prop} {items : List α} (same : ∀ a ∈ items, ∀ known, Q (draft known a).value ↔ P a)
    (known : List NodeId) : (∃ b ∈ (Drafted.each draft known items).value, Q b) ↔ ∃ a ∈ items, P a := by
  induction items generalizing known with
  | nil => simp [Drafted.each]
  | cons a rest ih =>
    have later := ih (fun b member => same b (List.mem_cons_of_mem _ member))
      (known ++ (draft known a).outline.ids)
    simp only [Drafted.each, Drafted.both, List.exists_mem_cons_iff, same a List.mem_cons_self, later]

/-- An expression in a statement is in an expression or in a body of the statement. -/
theorem mem_within_stmt {e : Expr} {s : Stmt}
    : .expr e ∈ (Part.stmt s).within
      ↔ (∃ p ∈ s.exprs, .expr e ∈ p.within) ∨ ∃ body ∈ s.bodies, IsExprIn e body := by
  have bodies : (∃ body ∈ s.bodies, IsExprIn e body)
      ↔ ∃ p ∈ s.parts.filter Part.isStmt, .expr e ∈ p.within := by
    rw [Stmt.filter_parts]
    simp only [IsExprIn, Part.stmts, List.mem_map, List.mem_flatten, exists_exists_and_eq_and]
    grind
  rw [bodies, Part.within_eq, List.mem_cons, List.mem_flatMap, Part.children, Stmt.exprs]
  simp only [reduceCtorEq, false_or, List.mem_filter]
  constructor
  · rintro ⟨p, member, inside⟩
    cases p with
    | stmt t => exact .inr ⟨_, ⟨member, rfl⟩, inside⟩
    | expr f => exact .inl ⟨_, ⟨member, rfl⟩, inside⟩
  · rintro (⟨p, ⟨member, _⟩, inside⟩ | ⟨p, ⟨member, _⟩, inside⟩) <;> exact ⟨p, member, inside⟩

variable {path : String} {e : Expr}

/-- Drafts have the same expressions, because declarations have none to begin with. -/
theorem mem_within_draftStmt (s : Stmt)
    : ∀ known, .expr e ∈ (Part.stmt (draftStmt path known s).value).within
      ↔ .expr e ∈ (Part.stmt s).within := by
  have declaration {s : Stmt} (kind : s.isDeclaration) (known : List NodeId)
      : .expr e ∈ (Part.stmt (draftStmt path known s).value).within
        ↔ .expr e ∈ (Part.stmt s).within := by
    rcases value_draftStmt_of_declaration known kind with same | ⟨id, same⟩
    · rw [same]
    · rw [same, Part.within_eq, Part.within_eq]
      cases s <;> simp_all [Stmt.isDeclaration, Part.children, Stmt.parts]
  induction s using Stmt.bodyInduction with
  | classDecl | interfaceDecl | functionDecl => exact fun known => declaration rfl known
  | other s kind ih =>
    intro known
    have lengths := length_draftBodies path (known ++ (s.opening path).ids) s.bodies
    rw [draftStmt_of_other kind, Drafted.both, mem_within_stmt, mem_within_stmt, Stmt.exprs_rebuild lengths,
      Stmt.bodies_rebuild lengths, draftBodies_eq]
    refine or_congr_right (Drafted.exists_mem_each (fun body member known => ?_) _)
    rw [draftStmts_eq]
    exact Drafted.exists_mem_each (ih body member) known

def boundMethod (path : String) (scope : Binding.TypeScope) (known : List NodeId) (d : MethodDecl) : Node :=
  .method { Binding.methodNode path scope d with body := (draftBody path known d.body).value }

theorem isExprIn_boundMethod (scope : Binding.TypeScope) (known : List NodeId) (d : MethodDecl)
    : IsExprIn e (boundMethod path scope known d).statements ↔ IsExprIn e (d.body.getD []) := by
  have drafts : (boundMethod path scope known d).statements = (draftBody path known d.body).value.getD [] := rfl
  rw [drafts]
  cases d.body with
  | none => rw [draftBody]
  | some body =>
    rw [draftBody, Drafted.map, Option.getD_some, draftStmts_eq]
    exact Drafted.exists_mem_each (fun s _ => mem_within_draftStmt s) known

-- Listed methods

open Binding in
/-- Every member of a type is in its list, under the spelling of the first one of its name. -/
theorem taken_memberIdsFrom {typeName : String} {m : Member} {id : NodeId}
    (own : memberId? typeName m = some id) (members : List Member) {seen : List NodeId}
    (named : ∀ s ∈ seen, ∃ m, memberId? typeName m = some s) (h : m ∈ members ∨ Taken seen id)
    : Taken (memberIdsFrom typeName seen members) id := by
  induction members generalizing seen with
  | nil => exact h.resolve_left (by simp)
  | cons first rest ih =>
    unfold memberIdsFrom
    split
    · rename_i id' own'
      refine ih ?_ ?_
      · intro s inside
        split at inside
        · exact named s inside
        · rcases List.mem_append.mp inside with old | last
          · exact named s old
          · exact ⟨first, by rw [own', List.mem_singleton.mp last]⟩
      · rcases h with member | taken
        · rcases List.mem_cons.mp member with rfl | later
          · obtain rfl := Option.some.inj (own.symm.trans own')
            right
            split
            · rename_i repeated
              exact (isRepeated_iff own named).mp repeated
            · exact taken_of_mem (by simp)
          · exact .inl later
        · right
          split
          · exact taken
          · exact taken_append.mpr (.inl taken)
    · rename_i other
      refine ih named (h.imp_left fun member => ?_)
      rcases List.mem_cons.mp member with rfl | later
      · simp [own] at other
      · exact later

-- Walks through classes

/-- A walk without a fault leaves a class with its own code. -/
theorem Bound.refers_iff {files : List SourceFile} {units : List CompilationUnit} {r : Registry}
    {o : Outline} (h : Bound files [] ∅ (units, r) o) (fine : (Walk.units r units).fault = none)
    {t u : TypeNode} (declared : .type t ∈ r.toList)
    : ((Walk.units r units).events.foldl ScopeLog.step ⟨[], 0⟩).Refers r t u
      ↔ ∃ v ∈ (Owner.type t).walked r, RefersTo r (some t) u v := by
  have tour := Walk.tours_unitsTo fine
  have known := tour.subset_toList
  have met : .type t ∈ entered (Walk.units r units).events := by
    rw [h.marks.marks] at tour
    refine firstVisits_subset [] _ (h.laid.firstVisits_eq (h.fault_iff.mp fine) tour ▸ ?_)
    exact mem_declarations.mpr ⟨declared, rfl⟩
  have log := Walk.log_unitsTo fine 0
  have scopes (s : ScopeCode)
      : s ∈ ((Walk.units r units).events.foldl ScopeLog.step ⟨[], 0⟩).scopes
        ↔ (∃ unit ∈ units, ⟨(Owner.unit unit).scope, (Owner.unit unit).walked r⟩ = s)
          ∨ ∃ D, (∃ n ∈ entered (Walk.units r units).events, Owner.ofNode? n = some D)
            ∧ ⟨D.scope, D.walked r⟩ = s := by
    rw [Walk.units, log]
    simp [ScopeLog.scopes, loggedNodes, Owner.logged]
  constructor
  · rintro ⟨s, member, scope, v, inside, refers⟩
    rcases (scopes s).mp member with ⟨unit, _, rfl⟩ | ⟨D, ⟨n, there, own⟩, rfl⟩
    · simp [Owner.scope] at scope
    · cases n with
      | type t' =>
        obtain rfl : D = .type t' := (Option.some.inj own).symm
        have same : t'.id = t.id := CouplingScope.type.inj scope
        obtain rfl : t' = t := by
          rw [← Registry.typeAt_of_mem (known there), same, Registry.typeAt_of_mem declared]
        exact ⟨v, inside, refers⟩
      | function f =>
        obtain rfl : D = .function f := (Option.some.inj own).symm
        simp [Owner.scope] at scope
      | _ => simp [Owner.ofNode?] at own
  · rintro ⟨v, inside, refers⟩
    exact ⟨_, (scopes _).mpr (.inr ⟨.type t, ⟨_, met, rfl⟩, rfl⟩), rfl, v, inside, refers⟩

theorem expr_mem_visitsIn {r : Registry} {body : List Stmt} : .expr e ∈ visitsIn r body ↔ IsExprIn e body := by
  simp only [visitsIn, IsExprIn, List.mem_filterMap, List.mem_flatMap]
  constructor
  · rintro ⟨p, ⟨s, member, inside⟩, visit⟩
    unfold Part.visit? at visit
    split at visit <;> simp at visit
    subst visit
    exact ⟨s, member, inside⟩
  · rintro ⟨s, member, inside⟩
    exact ⟨.expr e, ⟨s, member, inside⟩, rfl⟩

/-- The expressions in the code of a class are those in the bodies of its methods. -/
theorem expr_mem_walked {files : List (SourceFile × String)} {t : TypeNode}
    (declared : .type t ∈ (bindAll ∅ files).2.toList)
    : .expr e ∈ (Owner.type t).walked (bindAll ∅ files).2
      ↔ ∃ path scope known d, boundMethod path scope known d
            ∈ t.members.filterMap (bindAll ∅ files).2.node? ∧ IsExprIn e (d.body.getD []) := by
  simp only [Owner.walked, List.mem_cons, reduceCtorEq, false_or, List.mem_flatMap, Node.visits]
  constructor
  · rintro ⟨n, listed, either⟩
    have inside : IsExprIn e n.statements := by
      rcases either with node | inside
      · cases n <;> simp [Node.visit] at node
      · exact expr_mem_visitsIn.mp inside
    obtain ⟨id, member, found⟩ := List.mem_filterMap.mp listed
    obtain ⟨there, alike⟩ := Registry.alike_of_node? found
    obtain ⟨_, _, _, type⟩ := stands_of_mem_bindAll declared
    obtain ⟨name, _, _, named, _⟩ := type.members
    obtain ⟨path, p, _, stands⟩ := stands_of_mem_bindAll there
    cases stands with
    | @method _ scope _ d _ _ known =>
      exact ⟨path, scope, known, d, listed, (isExprIn_boundMethod scope known d).mp inside⟩
    | function d known =>
      obtain ⟨_, own⟩ := named id member
      rcases Binding.memberId?_cases own with ⟨m, rfl⟩ | ⟨q, rfl⟩
      · have kinds : NodeKind.function = .method := NodeId.Alike.kind_eq alike
        cases kinds
      · have kinds : NodeKind.function = .property := NodeId.Alike.kind_eq alike
        cases kinds
    | _ => simp [IsExprIn, Node.statements] at inside
  · rintro ⟨path, scope, known, d, listed, inside⟩
    exact ⟨_, listed, .inr (expr_mem_visitsIn.mpr ((isExprIn_boundMethod scope known d).mpr inside))⟩

theorem RefersTo.of_classOperand? {r : Registry} {current : Option TypeNode} {u : TypeNode} {ref : ClassRef}
    (operand : e.classOperand? = some ref) (found : r.resolveClass? current ref = some u)
    : RefersTo r current u (.expr e) := by
  refine mem_references.mp ?_
  simp [Registry.references, operand, found]

/-- In an analysis that comes to its end, a class depends on what its code refers to, unless they are kin.
The expressions in its code are those in the bodies of its methods, closures and the defaults of their
parameters included, and no others. So wherever one of them has a class for an operand, the class depends on
it.
-/
theorem class_operand_coupled (files : List (SourceFile × String))
    (unbound : ∀ file ∈ files, file.1.Unbound)
    (fine : (Walk.units (bindAll ∅ files).2 (bindAll ∅ files).1).fault = none)
    {path : String} {d : ClassDecl}
    (declared : .type (Binding.classNode path d) ∈ (bindAll ∅ files).2.toList)
    : let r := (bindAll ∅ files).2
      let t := Binding.classNode path d
      let c := (Walk.units r (bindAll ∅ files).1).events.foldl (fun c e => c.observe r e) ({} : Coupling)
      (∀ u, r.typeAt u.id = u → (u.id ∈ (c.record t.id).efferent
          ↔ (∃ v ∈ (Owner.type t).walked r, RefersTo r (some t) u v) ∧ ¬ r.Kin t u))
      ∧ (∀ e, .expr e ∈ (Owner.type t).walked r
          ↔ ∃ path scope known m, boundMethod path scope known m ∈ t.members.filterMap r.node?
            ∧ IsExprIn e (m.body.getD []))
      ∧ ∀ m known, .method m ∈ d.members → boundMethod path ⟨d.name, d.parent⟩ known m ∈ r.toList
        → ∀ e name u, IsExprIn e (m.body.getD []) → e.classOperand? = some (.type (.named name))
          → r.type? name = some u → ¬ r.Kin t u → u.id ∈ (c.record t.id).efferent := by
  intro r t c
  obtain ⟨o, bound⟩ := bindAll_empty_bound files unbound
  have edges (u : TypeNode) (standing : r.typeAt u.id = u) : u.id ∈ (c.record t.id).efferent
      ↔ (∃ v ∈ (Owner.type t).walked r, RefersTo r (some t) u v) ∧ ¬ r.Kin t u := by
    rw [← bound.refers_iff fine declared]
    exact mem_efferent_iff_refers declared standing
  refine ⟨edges, fun e => expr_mem_walked declared, ?_⟩
  intro m known member there e name u inside operand found other
  have taken : Taken t.members (.method d.name m.name) :=
    taken_memberIdsFrom rfl d.members (by simp) (.inl member)
  obtain ⟨id, listed, alike⟩ := taken
  have at_m : r.node? id = some (boundMethod path ⟨d.name, d.parent⟩ known m) :=
    bound.laid.node?_eq (mem_declarations.mpr ⟨there, rfl⟩) alike.symm
  refine (edges u (Registry.typeAt_type? found)).mpr ⟨⟨.expr e, ?_, .of_classOperand? operand found⟩, other⟩
  exact (expr_mem_walked declared).mpr
    ⟨path, _, known, m, List.mem_filterMap.mpr ⟨id, listed, at_m⟩, inside⟩

def constantOf (name : String) : Expr := .classConstFetch (.type (.named name)) "X"

def valuedMethod : MethodDecl :=
  let param (name : String) : Param := ⟨"x", none, some (constantOf name), false, false⟩
  ⟨"m", .isPublic, [param "D"], none, [], some [.expr (.closure [param "E"] [] none [])], ⟨4, 4⟩⟩

def valued : ClassDecl :=
  ⟨"A", .none, none, [], [.constant ⟨"K", constantOf "B", ⟨2, 2⟩⟩,
    .property ⟨"p", .isPublic, none, some (constantOf "C"), ⟨3, 3⟩⟩, .method valuedMethod], ⟨1, 5⟩⟩

/-- The class depends on what the parameter of the closure names. -/
theorem class_operand_coupled_valued
    : let files := [(SourceFile.mk "a.php" [.classDecl valued], "")]
      let r := (bindAll ∅ files).2
      let walk := Walk.units r (bindAll ∅ files).1
      let c := walk.events.foldl (fun c e => c.observe r e) ({} : Coupling)
      (∀ file ∈ files, file.1.Unbound) ∧ walk.fault = none
      ∧ .type (Binding.classNode "a.php" valued) ∈ r.toList
      ∧ IsExprIn (constantOf "E") (valuedMethod.body.getD [])
      ∧ .classType "E" ∈ (c.record (.classType "A")).efferent := by
  intro files r walk c
  have unbound : ∀ file ∈ files, file.1.Unbound := by decide +kernel
  have fine : walk.fault = none := by
    rw [← Option.isNone_iff_eq_none]
    decide +kernel
  have declared : .type (Binding.classNode "a.php" valued) ∈ r.toList :=
    Registry.mem_of_typeNode? (show r.typeNode? (.classType "A") = some _ from rfl)
  have body : (draftBody "a.php" [] valuedMethod.body).value = valuedMethod.body := by
    rw [valuedMethod, draftBody, draftStmts, draftStmts, draftStmt_of_closed rfl rfl, draftBodies_eq]
    rfl
  have there : boundMethod "a.php" ⟨"A", none⟩ [] valuedMethod ∈ r.toList := by
    rw [boundMethod, body]
    exact (Registry.alike_of_node? (show r.node? (.method "A" "m") = some _ from rfl)).1
  have inside : IsExprIn (constantOf "E") (valuedMethod.body.getD []) := by
    have step {p q x : Part} (child : q ∈ p.children) (inner : x ∈ q.within) : x ∈ p.within := by
      rw [Part.within_eq]
      exact List.mem_cons_of_mem _ (List.mem_flatMap.mpr ⟨q, child, inner⟩)
    refine ⟨_, List.mem_cons_self, step List.mem_cons_self (step List.mem_cons_self ?_)⟩
    rw [Part.within_eq]
    exact List.mem_cons_self
  obtain ⟨_, _, coupled⟩ := class_operand_coupled files unbound fine declared
  refine ⟨unbound, fine, declared, inside, ?_⟩
  refine coupled valuedMethod [] (by simp [valued]) there _ "E" (.placeholder "E" .classType) inside rfl rfl ?_
  rw [← Registry.areRelated_iff (Registry.typeAt_of_mem declared) rfl]
  decide +kernel

/-- It depends on none of the others, though it is related to none of them. -/
theorem value_not_coupled
    : let files := [(SourceFile.mk "a.php" [.classDecl valued], "")]
      let r := (bindAll ∅ files).2
      let t := Binding.classNode "a.php" valued
      let c := (Walk.units r (bindAll ∅ files).1).events.foldl (fun c e => c.observe r e) ({} : Coupling)
      .type t ∈ r.toList ∧ ∀ name ∈ ["B", "C", "D"],
        ∃ u, r.type? name = some u ∧ ¬ r.Kin t u ∧ u.id ∉ (c.record t.id).efferent := by
  intro files r t c
  have declared : .type t ∈ r.toList :=
    Registry.mem_of_typeNode? (show r.typeNode? (.classType "A") = some t from rfl)
  have found : ∀ name ∈ ["B", "C", "D"], r.type? name = some (.placeholder name .classType) :=
    List.forall_mem_cons.mpr ⟨rfl, List.forall_mem_cons.mpr ⟨rfl, List.forall_mem_singleton.mpr rfl⟩⟩
  have apart : ∀ name ∈ ["B", "C", "D"],
      ¬ Coupling.areRelated r (.placeholder name .classType) t
      ∧ .classType name ∉ (c.record t.id).efferent := by
    decide +kernel
  refine ⟨declared, fun name member => ?_⟩
  obtain ⟨unrelated, uncoupled⟩ := apart name member
  have standing := Registry.typeAt_type? (found name member)
  refine ⟨_, found name member, ?_, uncoupled⟩
  rwa [← Registry.areRelated_iff (Registry.typeAt_of_mem declared) standing]

end DesignMetrics
