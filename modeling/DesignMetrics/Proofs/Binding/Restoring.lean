import DesignMetrics.Proofs.Binding.Snapshots

/-! Restoring files.
Whatever a registry has before a file is bound, binding registers one node for each identifier that it
declares, and then may put other nodes with the same identifiers in their places. So attaching what has
been collected differs from binding only in the marks on these nodes.
-/

namespace DesignMetrics

variable {n : Node} {id : NodeId}

/-- The last node with an identifier, after one has taken the place of others. -/
theorem latest?_upsert {nodes : List Node} (known : n.id ∈ nodes.map Node.id) (id : NodeId)
    : latest? (upsert nodes n) id = if n.id = id then some n else latest? nodes id := by
  have turned : (upsert nodes n).reverse = upsert nodes.reverse n := by
    rw [upsert, if_pos known, upsert, if_pos (by simpa using known), List.map_reverse]
  rw [latest?, turned, find?_upsert, latest?]

/-- A node that takes the place of one of those just registered might have been registered itself. -/
theorem Registry.toList_register_registerAll (r : Registry) {new : List Node}
    (known : n.id ∈ new.map Node.id)
    : ((r.registerAll new).register n).toList = (r.registerAll (upsert new n)).toList := by
  have there : n.id ∈ (r.registerAll new).toList.map Node.id := by
    rw [toList_registerAll]
    exact mem_ids_upsertAll.mpr (.inr known)
  refine eq_of_find? (ids_nodup _) ?_ fun id => ?_
  · rw [toList_register, map_id_upsert there, toList_registerAll, toList_registerAll]
    exact map_id_upsertAll (map_id_upsert known).symm
  · rw [toList_register, toList_registerAll, toList_registerAll, find?_upsert, find?_upsertAll,
      find?_upsertAll, latest?_upsert known]
    split <;> rfl

def Bindings.From (before : Registry) (b : Bindings) : Prop :=
  ∃ new : List Node, new.map Node.id = b.declared
    ∧ b.registry.toList = (before.registerAll new).toList

variable {b : Bindings}

/-- A node may take the place of one that has been declared. -/
theorem Bindings.From.patch {before : Registry} (h : b.From before) (known : n.id ∈ b.declared)
    : Bindings.From before { b with registry := b.registry.register n } := by
  obtain ⟨new, ids, nodes⟩ := h
  have inside : n.id ∈ new.map Node.id := ids ▸ known
  refine ⟨upsert new n, (map_id_upsert inside).trans ids, ?_⟩
  rw [← Registry.toList_register_registerAll before inside, Registry.toList_register,
    Registry.toList_register, nodes]

/-- A node is registered along with its identifier. -/
theorem Bindings.From.register {before : Registry} (h : b.From before) (n : Node)
    : Bindings.From before
        { b with registry := b.registry.register n, declared := b.declared ++ [n.id] } := by
  obtain ⟨new, ids, nodes⟩ := h
  refine ⟨new ++ [n], by simp [ids], ?_⟩
  rw [Registry.toList_register, nodes, Registry.toList_registerAll, Registry.toList_registerAll,
    upsertAll_append]
  rfl

def Bindings.Follows (b after : Bindings) : Prop :=
  (∀ before, b.From before → after.From before) ∧ b.declared ⊆ after.declared

theorem Bindings.Follows.refl (b : Bindings) : b.Follows b := ⟨fun _ h => h, fun _ h => h⟩

theorem Bindings.Follows.trans {c d : Bindings} (left : b.Follows c) (right : c.Follows d)
    : b.Follows d :=
  ⟨fun before h => right.1 before (left.1 before h), fun _ h => right.2 (left.2 h)⟩

def Registers {α : Type} (step : Bind α) : Prop := ∀ b : Bindings, b.Follows (step.run b).2

namespace Registers

variable {α β : Type}

theorem pure (a : α) : Registers (Pure.pure a : Bind α) := fun b => .refl b

theorem bind {step : Bind α} {next : α → Bind β} (first : Registers step)
    (second : ∀ a, Registers (next a)) : Registers (step >>= next) :=
  fun b => (first b).trans (second _ _)

theorem map {step : Bind α} (f : α → β) (h : Registers step) : Registers (f <$> step) := by
  rw [← bind_pure_comp]
  exact h.bind fun _ => .pure _

theorem each {step : α → Bind β} {items : List α} (h : ∀ a ∈ items, Registers (step a))
    : Registers (items.mapM step) := by
  induction items with
  | nil => exact .pure []
  | cons a rest ih =>
    rw [List.mapM_cons]
    have others := ih fun c member => h c (List.mem_cons_of_mem _ member)
    exact (h a List.mem_cons_self).bind fun _ => others.bind fun _ => .pure _

/-- A declaration registers its node unless the identifier is taken; what is inside it is bound next,
and at last the node may be filled in. -/
theorem declare {node : Node} {step : Bind α} (fill : α → Bind Unit) {bare bound : β}
    (inner : Registers step)
    (filled : ∀ (a : α) (b : Bindings), node.id ∈ b.declared → b.Follows ((fill a).run b).2)
    : Registers
        (do if ← Binding.declare node then
              let a ← step
              fill a
              return bound
            else return bare) := by
  intro b
  cases taken : b.registry.isDeclared node.id with
  | true =>
    have refused : (Binding.declare node).run b
        = (false, { b with shadowed := b.shadowed ++ [node.id] }) := by
      simp [Binding.declare, taken]
      rfl
    rw [run_bind_eq refused]
    exact ⟨fun _ h => h, fun _ h => h⟩
  | false =>
    let after : Bindings :=
      { b with registry := b.registry.register node, declared := b.declared ++ [node.id] }
    have accepted : (Binding.declare node).run b = (true, after) := by
      simp [Binding.declare, taken, after]
      rfl
    have start : b.Follows after := ⟨fun _ h => h.register node, by simp [after]⟩
    have inside := inner after
    have last := filled (step.run after).1 (step.run after).2 (inside.2 (by simp [after]))
    rw [run_bind_eq accepted]
    exact start.trans (inside.trans last)

end Registers

/-- What is found under a declared identifier may be replaced. -/
theorem Bindings.follows_patch (known : id ∈ b.declared) (found : b.registry.node? id = some n)
    {patched : Node} (same : patched.id = n.id)
    : b.Follows { b with registry := b.registry.register patched } := by
  refine ⟨fun before h => h.patch ?_, fun _ h => h⟩
  obtain ⟨new, ids, nodes⟩ := h
  rw [Registry.toList_registerAll] at nodes
  rw [Registry.node?_eq_latest? nodes (ids ▸ known)] at found
  rw [same, (mem_of_latest? found).2]
  exact known

theorem follows_fillMethod (body : Option (List Stmt)) (known : id ∈ b.declared)
    : b.Follows ((fillMethod id body).run b).2 := by
  cases body with
  | none => exact .refl b
  | some body =>
    rw [fillMethod, Binding.setMethodBody, run_modify]
    dsimp only
    split
    · rename_i m found
      exact Bindings.follows_patch known found rfl
    · exact .refl b

theorem follows_setFunctionBody (body : List Stmt) (known : id ∈ b.declared)
    : b.Follows ((Binding.setFunctionBody id body).run b).2 := by
  rw [Binding.setFunctionBody, run_modify]
  dsimp only
  split
  · rename_i f found
    exact Bindings.follows_patch known found rfl
  · exact .refl b

section

variable {path : String}

theorem registers_bindStmts {body : List Stmt} (each : ∀ s ∈ body, Registers (Binding.bindStmt path s))
    : Registers (Binding.bindStmts path body) := by
  rw [Binding.bindStmts_eq]
  exact .each each

theorem registers_openNamespace (name : Option String) (span : Span)
    : Registers (Binding.openNamespace path name span) := by
  cases name with
  | none => exact .pure ()
  | some name =>
    unfold Binding.openNamespace
    by_cases isGlobal : name.isEmpty
    · simp only [isGlobal, if_true]
      exact .pure ()
    · simp only [isGlobal, if_false, Bool.false_eq_true]
      intro b
      exact ⟨fun _ h => h.register _, List.subset_append_left _ _⟩

theorem registers_other {s : Stmt} (kind : s.isDeclaration = false)
    (each : ∀ body ∈ s.bodies, Registers (Binding.bindStmts path body))
    : Registers (Binding.bindStmt path s) := by
  have start : Registers (s.openStep path) := by
    cases s with
    | inNamespace d => exact registers_openNamespace d.name d.span
    | _ => exact .pure ()
  rw [Binding.bindStmt_of_other kind]
  exact start.bind fun _ => (Registers.each each).bind fun _ => .pure _

theorem registers_bindMember {scope : Binding.TypeScope} {m : Member}
    (each : ∀ s ∈ m.statements, Registers (Binding.bindStmt path s))
    : Registers (Binding.bindMember path scope m) := by
  cases m with
  | method d =>
    have body : Registers (Binding.bindBody path d.body) := by
      rw [Binding.bindBody_eq]
      refine (Registers.each fun b here => registers_bindStmts fun t inside => each t ?_).map _
      simpa [Member.statements, Option.mem_toList.mp here] using inside
    rw [bindMember_method]
    exact .declare (fillMethod _) body fun body b known => follows_fillMethod body known
  | property d =>
    rw [bindMember_property]
    exact .declare (fun _ => Pure.pure ()) (.pure ()) fun _ b _ => .refl b
  | constant d =>
    rw [Binding.bindMember]
    exact .pure ()

/-- Binding a statement registers what it declares. -/
theorem registers_bindStmt (s : Stmt) : Registers (Binding.bindStmt path s) := by
  induction s using Stmt.bodyInduction with
  | classDecl d ih | interfaceDecl d ih =>
    have inner (scope : Binding.TypeScope) : Registers (Binding.bindMembers path scope d.members) := by
      rw [Binding.bindMembers_eq]
      exact (Registers.each fun m member => registers_bindMember (ih m member)).map _
    simp only [bindStmt_class, bindStmt_interface]
    exact .declare (fun _ => Pure.pure ()) (inner _) fun _ b _ => .refl b
  | functionDecl d ih =>
    rw [bindStmt_function]
    exact .declare (Binding.setFunctionBody _) (registers_bindStmts ih)
      fun body b known => follows_setFunctionBody body known
  | other s kind ih =>
    exact registers_other kind fun body member => registers_bindStmts (ih body member)

end

/-- Binding a file registers one node for each identifier that it declares, into any registry. -/
theorem SourceFile.bind_registers (file : SourceFile) (fingerprint : String) (r : Registry)
    : ∃ new : List Node, new.map Node.id = (file.bind fingerprint r).1.declared
      ∧ (file.bind fingerprint r).2.toList = (r.registerAll new).toList := by
  have step : Registers (Binding.bindStmts file.path file.statements) :=
    registers_bindStmts fun s _ => registers_bindStmt s
  exact (step { registry := r }).1 r ⟨[], rfl, rfl⟩

def Node.markIn (ids : List NodeId) (n : Node) : Node := if n.id ∈ ids then n.withCached true else n

@[simp] theorem Node.id_markIn (ids : List NodeId) (n : Node) : (n.markIn ids).id = n.id := by
  unfold markIn
  split <;> simp

/-- Marked nodes that are registered are marked in the registry. -/
theorem Registry.toList_registerAll_cached (r : Registry) (new : List Node)
    : (r.registerAll (new.map (Node.withCached true))).toList
      = (r.registerAll new).toList.map (Node.markIn (new.map Node.id)) := by
  have same : (new.map (Node.withCached true)).map Node.id = new.map Node.id := by
    simp [Function.comp_def]
  refine eq_of_find? (ids_nodup _) ?_ fun id => ?_
  · rw [List.map_map, toList_registerAll, toList_registerAll, map_id_upsertAll same]
    simp [Function.comp_def]
  · have marked : latest? (new.map (Node.withCached true)) id
        = (latest? new id).map (Node.withCached true) := by
      rw [latest?, ← List.map_reverse,
        find?_map_of_keeps (fun n => n.id_withCached true) _ fun i => i = id, latest?]
    rw [find?_map_of_keeps (Node.id_markIn _) _ fun i => i = id, toList_registerAll,
      toList_registerAll, find?_upsertAll, find?_upsertAll, marked]
    cases last : latest? new id with
    | some n =>
      obtain ⟨member, rfl⟩ := mem_of_latest? last
      have known : n.id ∈ new.map Node.id := List.mem_map_of_mem member
      simp [Node.markIn, known]
    | none =>
      have other : id ∉ new.map Node.id := by
        rintro known
        obtain ⟨n, member, rfl⟩ := List.mem_map.mp known
        obtain ⟨m, found⟩ := latest?_isSome member
        rw [found] at last
        contradiction
      cases found : r.toList.find? fun n => n.id = id with
      | none => rfl
      | some n =>
        obtain rfl : n.id = id := by simpa using List.find?_some found
        simp [Node.markIn, other]

/-- Collecting after binding gives the final nodes of those that were registered. -/
theorem Snapshot.nodes_collect {unit : CompilationUnit} {r r' : Registry} {new : List Node}
    (ids : new.map Node.id = unit.declared) (nodes : r'.toList = (r.registerAll new).toList)
    : (Snapshot.collect unit r').nodes = finals new := by
  rw [Registry.toList_registerAll] at nodes
  rw [Snapshot.collect, finals, ids]
  exact List.filterMap_congr fun id member => Registry.node?_eq_latest? nodes (ids ▸ member)

/-- Restoring is binding: if a file has been bound into a registry, attaching what is collected then to
the registry from before gives the unit and the registry of the binding, with the same nodes at the
same places, except that the nodes which the unit declares are marked. -/
theorem attach_collect_bind (file : SourceFile) (fingerprint : String) (r : Registry)
    : let bound := file.bind fingerprint r
      let s := Snapshot.collect bound.1 bound.2
      let restored := s.attach r
      s.unit = bound.1
      ∧ restored.toList = bound.2.toList.map (Node.markIn bound.1.declared)
      ∧ (∀ id : NodeId, restored.slots[id]? = bound.2.slots[id]?)
      ∧ (∀ key : String, restored.spellings[key]? = bound.2.spellings[key]?)
      ∧ ∀ id, restored.node? id = (bound.2.node? id).map (Node.markIn bound.1.declared) := by
  intro bound s restored
  obtain ⟨new, ids, nodes⟩ := file.bind_registers fingerprint r
  have marked : restored.toList = bound.2.toList.map (Node.markIn bound.1.declared) := by
    have collected := Snapshot.nodes_collect ids nodes
    simp only [restored, Snapshot.attach, s, bound, collected]
    rw [Registry.toList_registerAll_cached, Registry.toList_registerAll_finals, map_id_finals, ids,
      nodes]
  have same : restored.toList.map Node.id = bound.2.toList.map Node.id := by
    rw [marked, List.map_map]
    simp [Function.comp_def]
  exact ⟨rfl, marked, Registry.slots_eq_of_ids same, Registry.spellings_eq_of_ids same,
    Registry.node?_eq_map (Node.id_markIn _) marked⟩

end DesignMetrics
