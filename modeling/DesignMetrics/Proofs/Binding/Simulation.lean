import DesignMetrics.Proofs.Binding.Origins

/-! Binding does what the draft says.
In a registry that has exactly the identifiers that the draft is made after, binding gives the value of
the draft, registers the nodes of its outline and reports the same identifiers.
-/

namespace DesignMetrics

variable {α β : Type} {b : Bindings} {path : String}

-- Binding step by step

/-- A step whose outcome is known can be passed over. -/
theorem run_bind_eq {step : Bind α} {next : α → Bind β} {after : Bindings} {a : α}
    (h : step.run b = (a, after)) : (step >>= next).run b = (next a).run after := by
  rw [StateT.run_bind, h]
  rfl

def Stmt.openStep (path : String) : Stmt → Bind Unit
  | .inNamespace d => Binding.openNamespace path d.name d.span
  | _ => return

namespace Binding

theorem bindStmts_eq (body : List Stmt) : bindStmts path body = body.mapM (bindStmt path) := by
  induction body with
  | nil => rw [bindStmts, List.mapM_nil]
  | cons s rest ih => rw [bindStmts, ih, List.mapM_cons]

theorem bindMembers_eq (scope : TypeScope) (members : List Member)
    : bindMembers path scope members = (fun _ => ()) <$> members.mapM (bindMember path scope) := by
  induction members with
  | nil => rw [bindMembers, List.mapM_nil, map_pure]
  | cons m rest ih => simp [bindMembers, ih]

theorem bindBody_eq (body : Option (List Stmt))
    : bindBody path body = List.head? <$> body.toList.mapM (bindStmts path) := by
  cases body <;> simp [bindBody]

/-- Alternatives are bound body by body. -/
theorem bindItems_eq {body : α → List Stmt} {put : α → List Stmt → α}
    {bindItems : List α → Bind (List α)} (nil : bindItems [] = pure [])
    (cons : ∀ a rest, bindItems (a :: rest) = do
      let new ← bindStmts path (body a)
      return put a new :: (← bindItems rest)) (items : List α)
    : bindItems items = items.zipWith put <$> (items.map body).mapM (bindStmts path) := by
  induction items with
  | nil => simp [nil]
  | cons a items ih => simp [cons, ih]

theorem bindElseIfs_eq (items : List ElseIf)
    : bindElseIfs path items
      = items.zipWith .withBody <$> (items.map ElseIf.body).mapM (bindStmts path) :=
  bindItems_eq (by rw [bindElseIfs]) (by rintro ⟨_, _⟩ _; rw [bindElseIfs]; rfl) items

theorem bindCases_eq (items : List Case)
    : bindCases path items = items.zipWith .withBody <$> (items.map Case.body).mapM (bindStmts path) :=
  bindItems_eq (by rw [bindCases]) (by rintro ⟨_, _⟩ _; rw [bindCases]; rfl) items

theorem bindCatches_eq (items : List Catch)
    : bindCatches path items
      = items.zipWith .withBody <$> (items.map Catch.body).mapM (bindStmts path) :=
  bindItems_eq (by rw [bindCatches]) (by rintro ⟨_, _, _⟩ _; rw [bindCatches]; rfl) items

/-- Steps give as many values as they are taken for. -/
theorem length_run_mapM (step : α → Bind β) (items : List α) (b : Bindings)
    : ((items.mapM step).run b).1.length = items.length := by
  induction items generalizing b with
  | nil => rfl
  | cons a items ih =>
    rw [List.mapM_cons]
    exact congrArg (· + 1) (ih _)

theorem rebuild_alternatives {items : List α} (put : α → List Stmt → α) {new : List (List Stmt)}
    (h : new.length = items.length) (more : List (List Stmt))
    : items.zipWith put (new ++ more) = items.zipWith put new
      ∧ ((new ++ more).drop items.length).head? = more.head? := by
  constructor
  · have whole : (items ++ []).zipWith put (new ++ more)
        = items.zipWith put new ++ [].zipWith put more := List.zipWith_append h.symm
    simpa using whole
  · rw [← h, List.drop_left]

/-- A body, alternatives to it and a last resort are bound in this order. -/
theorem bindBranches_eq (s : Stmt) {body : α → List Stmt} {put : α → List Stmt → α}
    {build : List Stmt → List α → Option (List Stmt) → Stmt} {first : List Stmt} {items : List α}
    {last : Option (List Stmt)} {step : Bind (List α)}
    (between : step = items.zipWith put <$> (items.map body).mapM (bindStmts path))
    (rebuilt : ∀ new rest, s.rebuild (new :: rest)
      = build new (items.zipWith put rest) (rest.drop items.length).head?)
    : (do let new ← bindStmts path first
          let items ← step
          return build new items (← bindBody path last))
      = s.rebuild <$> (first :: (items.map body ++ last.toList)).mapM (bindStmts path) := by
  rw [between, bindBody_eq]
  simp only [List.mapM_cons, List.mapM_append, map_bind, bind_map_left, map_pure, bind_assoc,
    pure_bind, rebuilt]
  refine bind_congr fun new => StateT.ext fun b => ?_
  have lengths := length_run_mapM (bindStmts path) (items.map body) b
  rcases ran : ((items.map body).mapM (bindStmts path)).run b with ⟨arms, after⟩
  rw [ran, List.length_map] at lengths
  have dealt (more : List (List Stmt)) := rebuild_alternatives put lengths more
  rw [run_bind_eq ran, run_bind_eq ran]
  simp only [dealt]

/-- A statement that declares nothing is bound body by body. -/
theorem bindStmt_of_other {s : Stmt} (kind : s.isDeclaration = false)
    : bindStmt path s = do
        s.openStep path
        return s.rebuild (← s.bodies.mapM (bindStmts path)) := by
  cases s with
  | inNamespace d =>
    obtain ⟨name, body, span⟩ := d
    simp [bindStmt, Stmt.openStep, Stmt.bodies, Stmt.rebuild]
  | ifElse cond body elseIfs otherwise =>
    rw [bindStmt, bindBranches_eq (.ifElse cond body elseIfs otherwise) (bindElseIfs_eq elseIfs) fun _ _ => rfl]
    rfl
  | tryCatch body catches cleanup =>
    rw [bindStmt, bindBranches_eq (.tryCatch body catches cleanup) (bindCatches_eq catches) fun _ _ => rfl]
    rfl
  | switch subject cases =>
    simp [bindStmt, bindCases_eq, Stmt.openStep, Stmt.bodies, Stmt.rebuild]
  | classDecl | interfaceDecl | functionDecl => simp [Stmt.isDeclaration] at kind
  | whileLoop | doWhile | forLoop | forEach | block =>
    simp [bindStmt, Stmt.openStep, Stmt.bodies, Stmt.rebuild]
  | declared | expr | echo | ret | throw | other =>
    simp [bindStmt, Stmt.openStep, Stmt.bodies, Stmt.rebuild]

end Binding

-- Drafts that are followed

/-- Whether a registry has exactly the identifiers `known`, all declared in the project. -/
structure Tracks (known : List NodeId) (r : Registry) : Prop where
  ids : ∀ id, id ∈ r.toList.map Node.id ↔ id ∈ known
  own : ∀ n ∈ r.toList, n.isUserDefined

theorem Tracks.empty : Tracks [] ∅ := ⟨by simp, by simp⟩

variable {known : List NodeId} {r : Registry}

/-- An identifier is declared in the registry if it is taken in the list. -/
theorem Tracks.isDeclared_iff (h : Tracks known r) (id : NodeId)
    : r.isDeclared id ↔ Taken known id := by
  rw [Registry.isDeclared_iff h.own]
  constructor
  · rintro ⟨n, member, alike⟩
    exact ⟨n.id, (h.ids n.id).mp (List.mem_map_of_mem member), alike⟩
  · rintro ⟨other, member, alike⟩
    obtain ⟨n, there, rfl⟩ := List.mem_map.mp ((h.ids other).mpr member)
    exact ⟨n, there, alike⟩

theorem Tracks.upsertAll {new : Registry} {o : Outline} (h : Tracks known r)
    (nodes : new.toList = upsertAll r.toList o.nodes) (own : ∀ n ∈ new.toList, n.isUserDefined)
    : Tracks (known ++ o.ids) new where
  ids id := by
    rw [nodes, mem_ids_upsertAll, h.ids, List.mem_append]
    rfl
  own := own

def Performs {α : Type} (known : List NodeId) (step : Bind α) (d : Drafted α) : Prop :=
  ∀ b : Bindings, Tracks known b.registry →
    ∃ r : Registry, step.run b
        = (d.value, ⟨r, b.declared ++ d.outline.ids, b.shadowed ++ d.shadowed⟩)
      ∧ r.toList = upsertAll b.registry.toList d.outline.nodes
      ∧ ∀ n ∈ r.toList, n.isUserDefined

theorem run_modify (f : Bindings → Bindings) (b : Bindings)
    : (modify f : Bind Unit).run b = ((), f b) := rfl

namespace Performs

theorem pure (a : α) : Performs known (Pure.pure a) { value := a } :=
  fun b tracks => ⟨b.registry, by simp; rfl, rfl, tracks.own⟩

/-- One step after the other follows one draft after the other. -/
theorem bind {step : Bind α} {d : Drafted α} {e : Drafted β} (first : Performs known step d)
    (next : α → Bind β) (second : Performs (known ++ d.outline.ids) (next d.value) e)
    : Performs known (step >>= next)
        ⟨e.value, d.outline ++ e.outline, d.shadowed ++ e.shadowed⟩ := by
  intro b tracks
  obtain ⟨r, ran, nodes, own⟩ := first b tracks
  obtain ⟨r', ran', nodes', own'⟩ := second
    ⟨r, b.declared ++ d.outline.ids, b.shadowed ++ d.shadowed⟩ (tracks.upsertAll nodes own)
  refine ⟨r', ?_, ?_, own'⟩
  · rw [run_bind_eq ran, ran']
    simp
  · rw [nodes', nodes, Outline.nodes_append, upsertAll_append]

theorem map {step : Bind α} {d : Drafted α} (f : α → β) (h : Performs known step d)
    : Performs known (f <$> step) (d.map f) := by
  have both := h.bind (fun a => Pure.pure (f a)) (.pure (f d.value))
  simpa [Drafted.map] using both

theorem both {γ : Type} {step : Bind α} {step' : Bind β} {d : Drafted α} {e : Drafted β}
    (f : α → β → γ) (first : Performs known step d)
    (second : Performs (known ++ d.outline.ids) step' e)
    : Performs known (do return f (← step) (← step')) (.both f d e) := by
  simpa [Drafted.both, Drafted.map] using first.bind (fun a => f a <$> step') (second.map (f d.value))

/-- Steps that are taken one after the other follow their drafts. -/
theorem each {step : α → Bind β} {draft : List NodeId → α → Drafted β} {items : List α}
    (h : ∀ a ∈ items, ∀ known, Performs known (step a) (draft known a)) (known : List NodeId)
    : Performs known (items.mapM step) (.each draft known items) := by
  induction items generalizing known with
  | nil => exact .pure []
  | cons a rest ih =>
    rw [List.mapM_cons]
    exact (h a (by simp) known).both List.cons (ih (fun c member => h c (by simp [member])) _)

/-- A declaration registers its node unless the identifier is taken; what is inside it is bound next,
and at last the node may be filled in.
-/
theorem declare {key : String} {kind : NodeKind} {start : Node}
    {node : α → Node} {step : Bind α} {fill : α → Bind Unit} {inside : Drafted α} {bare bound : β}
    (other : kind ≠ .space) (started : start.id = .ofKey key kind ∧ start.isUserDefined)
    (named : ∀ a, (node a).id = .ofKey key kind ∧ (node a).isUserDefined)
    (new : inside.outline.New (fun _ _ => True) (known ++ [.ofKey key kind]))
    (inner : Performs (known ++ [.ofKey key kind]) step inside)
    (filled : ∀ b : Bindings, b.registry.node? (.ofKey key kind) = some start → ∀ a, ∃ r : Registry,
      (fill a).run b = ((), { b with registry := r })
      ∧ r.toList = upsert b.registry.toList (node a))
    : Performs known
        (do if ← Binding.declare start then
              let a ← step
              fill a
              return bound
            else return bare)
        (.declare known (.ofKey key kind) bare bound node inside) := by
  intro b tracks
  have declared := tracks.isDeclared_iff (.ofKey key kind)
  rw [Drafted.declare]
  by_cases taken : Taken known (.ofKey key kind)
  · have refused : (Binding.declare start).run b
        = (false, { b with shadowed := b.shadowed ++ [.ofKey key kind] }) := by
      simp [Binding.declare, started.1, declared.mpr taken]
      rfl
    refine ⟨b.registry, ?_, ?_, tracks.own⟩
    · rw [run_bind_eq refused]
      simp [taken]
      rfl
    · simp [taken]
  · have free : b.registry.isDeclared (.ofKey key kind) = false := by
      simpa using mt declared.mp taken
    have accepted : (Binding.declare start).run b
        = (true, ⟨b.registry.register start, b.declared ++ [.ofKey key kind], b.shadowed⟩) := by
      simp [Binding.declare, started.1, free]
      rfl
    have absent : start.id ∉ b.registry.toList.map Node.id := by
      rw [tracks.ids, started.1]
      exact fun member => taken (taken_of_mem member)
    -- the registry with the node as it starts
    have first : (b.registry.register start).toList = b.registry.toList ++ [start] := by
      rw [Registry.toList_register, upsert_of_fresh absent]
    have tracks' : Tracks (known ++ [.ofKey key kind]) (b.registry.register start) := by
      refine ⟨fun id => ?_, fun n member => ?_⟩
      · rw [first, List.map_append, List.mem_append, tracks.ids, List.mem_append]
        simp [started.1]
      · rw [first, List.mem_append, List.mem_singleton] at member
        rcases member with old | rfl
        · exact tracks.own n old
        · exact started.2
    obtain ⟨r, ran, nodes, own⟩ :=
      inner ⟨b.registry.register start, b.declared ++ [.ofKey key kind], b.shadowed⟩ tracks'
    -- nothing inside has taken its place
    have apart : start.id ∉ inside.outline.nodes.map Node.id := by
      rw [started.1]
      exact new.notMem_ids (by simp) other
    have there : start ∈ r.toList := by
      rw [nodes, first]
      exact mem_upsertAll_of_mem (by simp) apart
    obtain ⟨r', ran', nodes'⟩ := filled
      ⟨r, b.declared ++ [.ofKey key kind] ++ inside.outline.ids, b.shadowed ++ inside.shadowed⟩
      (started.1 ▸ Registry.node?_of_mem there) inside.value
    have same : (node inside.value).id = start.id := by rw [started.1, (named _).1]
    have replaced : r'.toList = upsertAll (b.registry.toList ++ [node inside.value])
        inside.outline.nodes := by
      rw [nodes', nodes, first, upsert_upsertAll (by simp [same]) (by rw [same]; exact apart),
        upsert_append_singleton absent same]
    refine ⟨r', ?_, ?_, fun n member => ?_⟩
    · rw [run_bind_eq accepted, if_pos rfl, run_bind_eq ran, run_bind_eq ran', if_neg taken]
      simp [(named _).1]
      rfl
    · rw [replaced, if_neg taken]
      simp [upsert_of_fresh (same ▸ absent : (node inside.value).id ∉ _)]
    · rw [nodes'] at member
      rcases mem_of_mem_upsert member with old | rfl
      · exact own n old
      · exact (named _).2

end Performs

theorem draftBodies_append (bodies more : List (List Stmt))
    : draftBodies path known (bodies ++ more)
      = .both (· ++ ·) (draftBodies path known bodies)
          (draftBodies path (known ++ (draftBodies path known bodies).outline.ids) more) := by
  induction bodies generalizing known with
  | nil => simp [draftBodies, Drafted.both]
  | cons body bodies ih =>
    simp only [List.cons_append, draftBodies, Drafted.both, ih, Outline.ids_append,
      List.append_assoc, Outline.append_assoc]

theorem draftBodies_singleton (body : List Stmt)
    : draftBodies path known [body] = (draftStmts path known body).map fun new => [new] := by
  simp [draftBodies, Drafted.both, Drafted.map]

/-- A body that may be missing is drafted like a list of at most one. -/
theorem draftBody_eq (body : Option (List Stmt))
    : draftBody path known body = (draftBodies path known body.toList).map List.head? := by
  cases body with
  | none => simp [draftBody, draftBodies, Drafted.map]
  | some body => simp [draftBody, draftBodies_singleton, Drafted.map]

section

theorem performs_bindStmts (known : List NodeId) {body : List Stmt}
    (each : ∀ s ∈ body, ∀ known, Performs known (Binding.bindStmt path s) (draftStmt path known s))
    : Performs known (Binding.bindStmts path body) (draftStmts path known body) := by
  rw [Binding.bindStmts_eq, draftStmts_eq]
  exact .each each known

theorem performs_bindBody (known : List NodeId) {body : Option (List Stmt)}
    (each : ∀ b ∈ body, ∀ known, Performs known (Binding.bindStmts path b) (draftStmts path known b))
    : Performs known (Binding.bindBody path body) (draftBody path known body) := by
  rw [Binding.bindBody_eq, draftBody_eq, draftBodies_eq]
  exact (Performs.each (by simpa using each) known).map _

/-- Opening a namespace registers its node, as often as it is opened. -/
theorem performs_openNamespace (known : List NodeId) (d : NamespaceDecl)
    : Performs known (Binding.openNamespace path d.name d.span)
        ⟨(), (Stmt.inNamespace d).opening path, []⟩ := by
  obtain ⟨name, body, span⟩ := d
  cases name with
  | none => exact .pure ()
  | some name =>
    unfold Binding.openNamespace Stmt.opening
    by_cases isGlobal : name.isEmpty
    · simp only [isGlobal, if_true]
      exact .pure ()
    · simp only [isGlobal, if_false, Bool.false_eq_true]
      intro b tracks
      refine ⟨_, by rw [List.append_nil]; rfl, Registry.toList_register _ _, fun n member => ?_⟩
      rw [Registry.toList_register] at member
      rcases mem_of_mem_upsert member with old | rfl
      · exact tracks.own n old
      · rfl

theorem performs_bindMembers (known : List NodeId) {scope : Binding.TypeScope} {members : List Member}
    (each : ∀ m ∈ members, ∀ known,
      Performs known (Binding.bindMember path scope m) (draftMember path scope known m))
    : Performs known (Binding.bindMembers path scope members)
        (draftMembers path scope known members) := by
  rw [Binding.bindMembers_eq, draftMembers_eq]
  exact (Performs.each each known).map _

/-- A statement that declares nothing follows the drafts of its bodies. -/
theorem performs_other {s : Stmt} (kind : s.isDeclaration = false) (each : ∀ body ∈ s.bodies, ∀ known,
      Performs known (Binding.bindStmts path body) (draftStmts path known body))
    : Performs known (Binding.bindStmt path s) (draftStmt path known s) := by
  have start : Performs known (s.openStep path) ⟨(), s.opening path, []⟩ := by
    cases s with
    | inNamespace d => exact performs_openNamespace known d
    | _ => exact .pure ()
  rw [Binding.bindStmt_of_other kind, draftStmt_of_other kind, draftBodies_eq]
  exact start.both (fun _ => s.rebuild) (.each each _)

def fillMethod (id : NodeId) : Option (List Stmt) → Bind Unit
  | some body => Binding.setMethodBody id body
  | none => return

theorem bindMember_method (scope : Binding.TypeScope) (d : MethodDecl)
    : Binding.bindMember path scope (.method d)
      = do if ← Binding.declare (.method (Binding.methodNode path scope d)) then
             let body ← Binding.bindBody path d.body
             fillMethod (.method scope.name d.name) body
             return ()
           else return () := by
  obtain ⟨name, modifiers, params, returnType, throws, body, span⟩ := d
  rw [Binding.bindMember]
  simp only [bind_pure_unit]
  rfl

theorem bindMember_property (scope : Binding.TypeScope) (d : PropertyDecl)
    : Binding.bindMember path scope (.property d)
      = do if ← Binding.declare (.property (Binding.propertyNode path scope d)) then
             let _ ← (return () : Bind Unit)
             (return () : Bind Unit)
             return ()
           else return () := by
  rw [Binding.bindMember]
  simp [discard, map_const]

/-- Registering the node that is there changes nothing. -/
theorem upsert_self {n : Node} (h : n ∈ r.toList) : upsert r.toList n = r.toList := by
  rw [upsert, if_pos (List.mem_map_of_mem h)]
  refine (List.map_congr_left fun m member => ?_).trans (List.map_id _)
  split
  · rename_i same
    have found := Registry.node?_of_mem member
    rw [same, Registry.node?_of_mem h] at found
    exact Option.some.inj found
  · rfl

theorem run_fillMethod (m : MethodNode) (bare : m.body = none)
    (here : b.registry.node? m.id = some (.method m)) (body : Option (List Stmt))
    : ∃ r : Registry, (fillMethod m.id body).run b = ((), { b with registry := r })
      ∧ r.toList = upsert b.registry.toList (.method { m with body }) := by
  cases body with
  | none =>
    refine ⟨b.registry, rfl, ?_⟩
    rw [← bare]
    exact (upsert_self (Registry.alike_of_node? here).1).symm
  | some body =>
    refine ⟨b.registry.register (.method { m with body := some body }), ?_,
      Registry.toList_register _ _⟩
    simp only [fillMethod, Binding.setMethodBody, run_modify, here]

/-- Gives a function its body. -/
theorem run_setFunctionBody (f : FunctionNode) (here : b.registry.node? f.id = some (.function f))
    (body : List Stmt)
    : ∃ r : Registry, (Binding.setFunctionBody f.id body).run b = ((), { b with registry := r })
      ∧ r.toList = upsert b.registry.toList (.function { f with body }) := by
  refine ⟨b.registry.register (.function { f with body }), ?_, Registry.toList_register _ _⟩
  simp only [Binding.setFunctionBody, run_modify, here]

/-- A member is registered without its body, which is filled in when it is bound. -/
theorem performs_bindMember {scope : Binding.TypeScope} (known : List NodeId) {m : Member}
    (each : ∀ s ∈ m.statements, ∀ known,
      Performs known (Binding.bindStmt path s) (draftStmt path known s))
    : Performs known (Binding.bindMember path scope m) (draftMember path scope known m) := by
  cases m with
  | method d =>
    have body : Performs (known ++ [.method scope.name d.name]) (Binding.bindBody path d.body)
        (draftBody path (known ++ [.method scope.name d.name]) d.body) :=
      performs_bindBody _ fun b here known => performs_bindStmts known fun t inside =>
        each t (by simpa [Member.statements, Option.mem_def.mp here] using inside)
    rw [draftMember, bindMember_method]
    exact .declare (by simp) ⟨rfl, rfl⟩ (fun _ => ⟨rfl, rfl⟩) (new_draftBody _ d.body) body
      fun b here new => run_fillMethod (Binding.methodNode path scope d) rfl here new
  | property d =>
    rw [draftMember, bindMember_property]
    exact .declare (by simp) ⟨rfl, rfl⟩ (fun _ => ⟨rfl, rfl⟩) .done (.pure ())
      fun b here _ => ⟨b.registry, rfl, (upsert_self (Registry.alike_of_node? here).1).symm⟩
  | constant d =>
    rw [Binding.bindMember, draftMember]
    exact .pure ()

theorem bindStmt_class (d : ClassDecl)
    : Binding.bindStmt path (.classDecl d)
      = do if ← Binding.declare (.type (Binding.classNode path d)) then
             let _ ← Binding.bindMembers path ⟨d.name, d.parent⟩ d.members
             (return () : Bind Unit)
             return .declared (.classType d.name)
           else return .classDecl d := by
  obtain ⟨name, modifiers, parent, interfaces, members, span⟩ := d
  rw [Binding.bindStmt]
  rfl

theorem bindStmt_interface (d : InterfaceDecl)
    : Binding.bindStmt path (.interfaceDecl d)
      = do if ← Binding.declare (.type (Binding.interfaceNode path d)) then
             let _ ← Binding.bindMembers path ⟨d.name, none⟩ d.members
             (return () : Bind Unit)
             return .declared (.interfaceType d.name)
           else return .interfaceDecl d := by
  obtain ⟨name, parents, members, span⟩ := d
  rw [Binding.bindStmt]
  rfl

theorem bindStmt_function (d : FunctionDecl)
    : Binding.bindStmt path (.functionDecl d)
      = do if ← Binding.declare (.function (Binding.functionNode path d)) then
             let body ← Binding.bindStmts path d.body
             Binding.setFunctionBody (.function d.name) body
             return .declared (.function d.name)
           else return .functionDecl d := by
  obtain ⟨name, params, returnType, throws, body, span⟩ := d
  rw [Binding.bindStmt]
  rfl

/-- Binding a statement follows its draft. -/
theorem performs_bindStmt (s : Stmt)
    : ∀ known, Performs known (Binding.bindStmt path s) (draftStmt path known s) := by
  induction s using Stmt.bodyInduction with
  | classDecl d ih | interfaceDecl d ih =>
    intro known
    have inner (scope : Binding.TypeScope) (known : List NodeId)
        : Performs known (Binding.bindMembers path scope d.members)
            (draftMembers path scope known d.members) :=
      performs_bindMembers _ fun m member known => performs_bindMember known (ih m member)
    simp only [draftStmt, bindStmt_class, bindStmt_interface]
    exact .declare (by simp) ⟨rfl, rfl⟩ (fun _ => ⟨rfl, rfl⟩) (new_draftMembers _ _) (inner _ _)
      fun b here _ => ⟨b.registry, rfl, (upsert_self (Registry.alike_of_node? here).1).symm⟩
  | functionDecl d ih =>
    intro known
    have inner := performs_bindStmts (known ++ [.function d.name]) ih
    rw [draftStmt, bindStmt_function]
    exact .declare (by simp) ⟨rfl, rfl⟩ (fun _ => ⟨rfl, rfl⟩) (new_draftStmts _ d.body) inner
      fun b here body => run_setFunctionBody (Binding.functionNode path d) here body
  | other s kind ih =>
    intro known
    exact performs_other kind fun body member known => performs_bindStmts known (ih body member)

end

end DesignMetrics
