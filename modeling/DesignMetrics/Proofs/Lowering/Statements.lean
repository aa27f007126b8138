import DesignMetrics.Lowering.File
import DesignMetrics.Proofs.Lowering.Expressions

/-! Declarations, statements and files under a rule.
The views of a tree are built from the leaves up, so they are clean if all nodes of the tree obey the
rule.
-/

namespace DesignMetrics

namespace Lowering

variable {rule : NameRule}

def MemberObeys (rule : NameRule) (m : Member) : Prop :=
  (∀ s ∈ m.statements, s.Obeys rule) ∧ Obeyed rule m.values

theorem yields_method {v : View} (h : v.Clean rule)
    : Yields rule (method v) fun d => MemberObeys rule (.method d) := by
  unfold method
  simp only [pure_bind]
  refine (yields_params h.children).bind fun ps params => yields_get.bind fun scope _ => ?_
  have values := obeyed_flatMap.mpr params
  split
  · refine (yields_blockOf (clean_inField? h.children _ _ ‹_›)).bind fun body each => ?_
    exact yields_pure ⟨each, values⟩
  · exact yields_pure ⟨by simp [Member.statements], values⟩

variable {element : View} {b : Branches} {views : List View}

theorem clean_propertyDefault? (h : element.Clean rule)
    : ∀ v ∈ propertyDefault? element, v.Clean rule := by
  intro v found
  rcases Option.or_eq_some_iff.mp found with field | ⟨_, later⟩
  · exact clean_inField? h.children _ v field
  · obtain ⟨init, inside, first⟩ := Option.bind_eq_some_iff.mp later
    have clean := clean_phrases h.children init (List.mem_of_find?_eq_some inside)
    exact clean_phrases clean.children v (List.mem_of_head? first)

theorem yields_property (h : element.Clean rule) (modifiers : Modifiers) (hint : Option TypeRef)
    : Yields rule (property modifiers hint element) (MemberObeys rule) := by
  unfold property
  simp only [pure_bind]
  split
  · refine (clean_propertyDefault? h _ ‹_›).expr.bind fun e one => yields_pure ⟨nofun, ?_⟩
    exact obeyed_one one
  · exact yields_pure ⟨nofun, obeyed_nil⟩

theorem yields_constant (h : element.Clean rule)
    : Yields rule (constant element) (MemberObeys rule) := by
  unfold constant
  refine (yields_exprOf fun v found => ?_).bind fun e one => yields_pure ⟨nofun, obeyed_one one⟩
  exact clean_phrases h.children v (List.mem_of_getElem? found)

theorem yields_membersOf {v : View} (h : v.Clean rule)
    : Yields rule (membersOf v) fun ms => ∀ m ∈ ms, MemberObeys rule m := by
  have elements (kind : String)
      : ∀ c ∈ (phrases v.children).filter fun c => c.kind == kind, c.Clean rule :=
    fun c member => clean_phrases h.children c (List.mem_filter.mp member).1
  unfold membersOf
  split
  · exact (yields_method h).bind fun d one => yields_pure (List.forall_mem_singleton.mpr one)
  · exact yields_get.bind fun scope _ =>
      yields_inOrder fun element inside => yields_property (elements _ element inside) _ _
  · exact yields_inOrder fun element inside => yields_constant (elements _ element inside)
  · exact yields_pure (by simp)

section

variable {children : List View} (h : ∀ c ∈ children, c.Clean rule)

include h

theorem yields_members : Yields rule (members children) fun ms => ∀ m ∈ ms, MemberObeys rule m := by
  unfold members
  split
  · rename_i body found
    have clean := clean_phrases (clean_inField? h _ _ found).children
    refine (yields_inOrder fun v inside => yields_membersOf (clean v inside)).bind fun lists each => ?_
    refine yields_pure fun m inside => ?_
    obtain ⟨ms, outer, inner⟩ := List.mem_flatten.mp inside
    exact each ms outer m inner
  · exact yields_pure (by simp)

def declaringKinds : List String := ["class_declaration", "interface_declaration", "function_definition"]

/-- Whether a node of the given kind, with the given text as its name, obeys a rule. -/
structure Admits (rule : NameRule) (kind name : String) : Prop where
  space : kind = "namespace_definition" → rule.spaces
  declares : kind ∈ declaringKinds → ∀ scope, rule.scopes scope → rule.names (scope.qualify name)

/-- A declaration obeys a rule if its name and what it comes with do. -/
theorem yields_declarations (label : Label) (tags : DocTags)
    (named : ∀ scope, rule.scopes scope → rule.names (scope.qualify (fieldText children "name")))
    : Yields rule (classDecl label children) (fun d => (Stmt.classDecl d).Obeys rule)
      ∧ Yields rule (interfaceDecl label children) (fun d => (Stmt.interfaceDecl d).Obeys rule)
      ∧ Yields rule (functionDecl label tags children) fun d => (Stmt.functionDecl d).Obeys rule := by
  have held {ms : List Member} (each : ∀ m ∈ ms, MemberObeys rule m)
      : (∀ s ∈ ms.flatMap Member.statements, s.Obeys rule) ∧ Obeyed rule (ms.flatMap Member.values) := by
    refine ⟨fun s inside => ?_, obeyed_flatMap.mpr fun m member => (each m member).2⟩
    obtain ⟨m, outer, inner⟩ := List.mem_flatMap.mp inside
    exact (each m outer).1 s inner
  refine ⟨?_, ?_, ?_⟩
  iterate 2
    · refine yields_get.bind fun scope kept => (yields_members h).bind fun ms each => yields_pure ?_
      refine Stmt.obeys_iff.mpr ⟨?_, obeyed_nil, held each⟩
      rintro _ ⟨⟩
      exact named scope kept
  · refine yields_get.bind fun scope kept => (yields_params h).bind fun ps params => ?_
    refine yields_get.bind fun inner _ => (yields_bodyOf h "body").bind fun body each => yields_pure ?_
    refine Stmt.obeys_iff.mpr ⟨?_, obeyed_nil, each, obeyed_flatMap.mpr params⟩
    rintro _ ⟨⟩
    exact named scope kept

end

theorem yields_addImport (group : Option String) (clause : View)
    : Yields rule (addImport group clause) fun _ => True := by
  unfold addImport
  split
  · exact yields_pure trivial
  · exact yields_modify fun scope kept => rule.addAlias _ _ kept

theorem yields_addImports (group : Option String) (views : List View)
    : Yields rule (addImports group views) fun _ => True := by
  induction views generalizing group with
  | nil => exact yields_pure trivial
  | cons v views ih =>
    unfold addImports
    split
    iterate 3 (next => exact ih _)
    next => exact (yields_addImport none v).bind fun _ _ => ih _
    next =>
      refine Yields.bind (P := fun _ => True) ?_ fun _ _ => ih _
      exact (yields_inOrder fun clause _ => yields_addImport group clause).bind
        fun _ _ => yields_pure trivial
    next => exact ih _

/-- Imports change aliases only. -/
theorem yields_useDecl (children : List View) : Yields rule (useDecl children) fun _ => True := by
  unfold useDecl
  split
  · exact yields_pure trivial
  · exact yields_addImports none _

def Branches.Clean (rule : NameRule) (b : Branches) : Prop :=
  Obeyed rule (b.elseIfs.flatMap ElseIf.parts) ∧ ∀ s ∈ b.otherwise.getD [], s.Obeys rule

theorem Branches.clean_empty : Branches.Clean rule {} := ⟨obeyed_nil, by simp⟩

theorem Branches.Clean.addElse (h : b.Clean rule) {body : List Stmt} (each : ∀ s ∈ body, s.Obeys rule)
    : (b.addElse body).Clean rule := by
  unfold Branches.addElse
  split
  · rename_i cond first elseIfs otherwise
    obtain ⟨_, parts, _⟩ := Stmt.obeys_iff.mp (List.forall_mem_singleton.mp each)
    obtain ⟨one, rest⟩ := obeyed_expr_cons.mp parts
    obtain ⟨body, rest⟩ := obeyed_append.mp rest
    obtain ⟨others, last⟩ := obeyed_append.mp rest
    refine ⟨?_, obeyed_stmts.mp last⟩
    rw [List.flatMap_append, List.flatMap_cons, obeyed_append, obeyed_append]
    exact ⟨h.1, obeyed_expr_cons.mpr ⟨one, body⟩, others⟩
  · exact ⟨h.1, each⟩

theorem Branches.Clean.addElseIf (h : b.Clean rule) {cond : Expr} {body : List Stmt}
    (one : Obeyed rule cond.parts) (each : ∀ s ∈ body, s.Obeys rule)
    : (b.addElseIf cond body).Clean rule := by
  refine ⟨?_, h.2⟩
  rw [Branches.addElseIf, List.flatMap_append, obeyed_append, List.flatMap_singleton]
  exact ⟨h.1, obeyed_expr_cons.mpr ⟨one, obeyed_stmts.mpr each⟩⟩

theorem yields_branches (h : ∀ v ∈ views, v.Clean rule) (clean : b.Clean rule)
    : Yields rule (branches b views) (Branches.Clean rule) := by
  induction views generalizing b with
  | nil => exact yields_pure clean
  | cons v views ih =>
    obtain ⟨first, others⟩ := List.forall_mem_cons.mp h
    unfold branches
    split
    · refine (yields_exprOf (clean_inField? first.children _)).bind fun cond one => ?_
      refine (yields_bodyOf first.children _).bind fun body each => ?_
      exact ih others (clean.addElseIf one each)
    · exact (yields_bodyOf first.children _).bind fun body each => ih others (clean.addElse each)
    · exact ih others clean

def ForHead.Clean (rule : NameRule) (head : ForHead) : Prop :=
  Obeyed rule (Part.exprs head.init ++ (Part.exprs head.cond ++ Part.exprs head.step))

theorem ForHead.clean_empty : ForHead.Clean rule {} := obeyed_nil

theorem yields_forHead (h : ∀ v ∈ views, v.Clean rule) {head : ForHead} (clean : head.Clean rule)
    (place : Nat)
    : Yields rule (forHead head place views) (ForHead.Clean rule) := by
  induction views generalizing head place with
  | nil => exact yields_pure clean
  | cons v views ih =>
    obtain ⟨first, others⟩ := List.forall_mem_cons.mp h
    unfold forHead
    split
    · exact ih others clean _
    · split
      · refine first.exprs.bind fun es each => ih others ?_ _
        simp only [ForHead.Clean, obeyed_append, obeyed_exprs] at clean ⊢
        obtain ⟨init, cond, step⟩ := clean
        split
        · exact ⟨List.forall_mem_append.mpr ⟨init, each⟩, cond, step⟩
        · exact ⟨init, List.forall_mem_append.mpr ⟨cond, each⟩, step⟩
        · exact ⟨init, cond, List.forall_mem_append.mpr ⟨step, each⟩⟩
      · exact ih others clean _

theorem yields_forEachBinding {v : Option View} (h : ∀ w ∈ v, w.Clean rule)
    : Yields rule (forEachBinding v) fun p =>
        Obeyed rule (Part.exprs p.1.toList) ∧ Obeyed rule (Part.exprs p.2.toList) := by
  unfold forEachBinding
  split
  · exact yields_pure ⟨obeyed_nil, obeyed_nil⟩
  · rename_i w
    have clean := h w rfl
    split
    · have parts : ∀ c ∈ (phrases w.children).take 2, c.Clean rule :=
        fun c inside => clean_phrases clean.children c (List.mem_of_mem_take inside)
      refine (yields_exprsOf parts).bind fun es each => ?_
      split
      · exact yields_pure ⟨obeyed_nil, obeyed_nil⟩
      · exact yields_pure ⟨obeyed_one (each _ (by simp)), obeyed_nil⟩
      · exact yields_pure ⟨obeyed_one (each _ (by simp)), obeyed_one (each _ (by simp))⟩
    · exact clean.expr.bind fun e one => yields_pure ⟨obeyed_nil, obeyed_one one⟩

theorem yields_caseOf? {arm : View} (h : arm.Clean rule)
    : Yields rule (caseOf? arm) fun c => ∀ d ∈ c, Obeyed rule d.parts := by
  have body := yields_stmtsOf (clean_phrases (clean_withoutField h.children "value"))
  unfold caseOf?
  simp only
  split
  · refine (yields_exprOf (clean_inField? h.children _)).bind fun test one => body.bind fun b each => ?_
    refine yields_pure fun d same => Option.some.inj same ▸ ?_
    exact obeyed_expr_cons.mpr ⟨one, obeyed_stmts.mpr each⟩
  · refine body.bind fun b each => yields_pure fun d same => Option.some.inj same ▸ ?_
    exact obeyed_stmts.mpr each
  · exact yields_pure (by simp)

def Handlers.Clean (rule : NameRule) (h : Handlers) : Prop :=
  Obeyed rule (h.catches.flatMap Catch.parts) ∧ ∀ s ∈ h.cleanup.getD [], s.Obeys rule

theorem Handlers.clean_empty : Handlers.Clean rule {} := ⟨obeyed_nil, by simp⟩

theorem yields_handlers (h : ∀ v ∈ views, v.Clean rule) {hs : Handlers} (clean : hs.Clean rule)
    : Yields rule (handlers hs views) (Handlers.Clean rule) := by
  induction views generalizing hs with
  | nil => exact yields_pure clean
  | cons v views ih =>
    obtain ⟨first, others⟩ := List.forall_mem_cons.mp h
    have body := yields_bodyOf first.children "body"
    unfold handlers
    split
    · refine Yields.bind (P := fun c => Obeyed rule c.parts) ?_ fun c each => ih others ⟨?_, clean.2⟩
      · exact yields_get.bind fun scope _ => body.bind fun b each => yields_pure (obeyed_stmts.mpr each)
      · rw [List.flatMap_append, obeyed_append, List.flatMap_singleton]
        exact ⟨clean.1, each⟩
    · exact body.bind fun b each => ih others ⟨clean.1, each⟩
    · exact ih others clean

section

variable {children : List View} (h : ∀ c ∈ children, c.Clean rule)

include h

theorem yields_bracedNamespace (spaces : rule.spaces) (label : Label)
    : Yields rule (bracedNamespace label children) (Stmt.Obeys rule) := by
  refine (yields_modify fun scope _ => rule.enter scope _ spaces).bind fun _ _ => ?_
  refine (yields_bodyOf h "body").bind fun body each => yields_get.bind fun scope _ => ?_
  refine (yields_modify fun scope _ => rule.enter scope _ spaces).bind fun _ _ => yields_pure ?_
  exact Stmt.obeys_of_parts spaces rfl rfl (obeyed_stmts.mpr each)

theorem yields_ifStmt : Yields rule (ifStmt children) (Stmt.Obeys rule) := by
  refine (yields_exprOf (clean_inField? h _)).bind fun cond one => ?_
  refine (yields_bodyOf h _).bind fun body each => ?_
  have later : ∀ c ∈ children.filter fun c => c.field == "alternative", c.Clean rule :=
    fun c member => h c (List.mem_filter.mp member).1
  refine (yields_branches later Branches.clean_empty).bind fun b clean => yields_pure ?_
  refine Stmt.obeys_of_parts nofun rfl rfl (obeyed_expr_cons.mpr ⟨one, obeyed_append.mpr ⟨?_, ?_⟩⟩)
  · exact obeyed_stmts.mpr each
  · exact obeyed_append.mpr ⟨clean.1, obeyed_stmts.mpr clean.2⟩

theorem yields_forStmt : Yields rule (forStmt children) (Stmt.Obeys rule) := by
  have before : ∀ c ∈ children.takeWhile fun c => c.field != "body" && c.kind != ")", c.Clean rule :=
    fun c member => h c (List.takeWhile_subset _ member)
  refine (yields_forHead before ForHead.clean_empty 0).bind fun head clean => ?_
  refine (yields_bodyOf h _).bind fun body each => yields_pure ?_
  obtain ⟨init, rest⟩ := obeyed_append.mp clean
  obtain ⟨cond, step⟩ := obeyed_append.mp rest
  refine Stmt.obeys_of_parts nofun rfl rfl (obeyed_append.mpr ⟨init, obeyed_append.mpr ⟨cond, ?_⟩⟩)
  exact obeyed_append.mpr ⟨step, obeyed_stmts.mpr each⟩

theorem yields_forEachStmt : Yields rule (forEachStmt children) (Stmt.Obeys rule) := by
  have parts := clean_phrases (clean_withoutField h "body")
  refine (yields_exprOf fun w found => parts w (List.mem_of_head? found)).bind fun subject one => ?_
  refine (yields_forEachBinding fun w found => parts w (List.mem_of_getElem? found)).bind
    fun p bound => ?_
  refine (yields_bodyOf h _).bind fun body each => yields_pure ?_
  refine Stmt.obeys_of_parts nofun rfl rfl (obeyed_expr_cons.mpr ⟨one, ?_⟩)
  refine obeyed_append.mpr ⟨bound.1, obeyed_append.mpr ⟨bound.2, ?_⟩⟩
  exact obeyed_stmts.mpr each

theorem yields_switchStmt : Yields rule (switchStmt children) (Stmt.Obeys rule) := by
  refine (yields_exprOf (clean_inField? h _)).bind fun subject one => ?_
  refine (yields_inOrder fun v inside => yields_caseOf? ?_).bind fun cs each => ?_
  · split at inside
    · exact clean_phrases (clean_inField? h _ _ ‹_›).children v inside
    · cases inside
  refine yields_pure (Stmt.obeys_of_parts nofun rfl rfl (obeyed_expr_cons.mpr ⟨one, ?_⟩))
  refine obeyed_flatMap.mpr fun c member => ?_
  obtain ⟨o, inside, same⟩ := List.mem_filterMap.mp member
  exact each o inside c same

theorem yields_tryStmt : Yields rule (tryStmt children) (Stmt.Obeys rule) := by
  refine (yields_bodyOf h _).bind fun body each => ?_
  refine (yields_handlers (clean_phrases h) Handlers.clean_empty).bind fun hs clean => yields_pure ?_
  refine Stmt.obeys_of_parts nofun rfl rfl (obeyed_append.mpr ⟨obeyed_stmts.mpr each, ?_⟩)
  exact obeyed_append.mpr ⟨clean.1, obeyed_stmts.mpr clean.2⟩

theorem yields_expressionStmt
    : Yields rule (expressionStmt children) fun body => ∀ s ∈ body, s.Obeys rule := by
  have one {e : Expr} (h : Obeyed rule e.parts)
      : (∀ s ∈ [Stmt.throw e], s.Obeys rule) ∧ ∀ s ∈ [Stmt.expr e], s.Obeys rule :=
    ⟨List.forall_mem_singleton.mpr (Stmt.obeys_of_parts nofun rfl rfl (obeyed_one h)),
      List.forall_mem_singleton.mpr (Stmt.obeys_of_parts nofun rfl rfl (obeyed_one h))⟩
  unfold expressionStmt
  split
  · exact yields_pure (by simp)
  · rename_i inner found
    have clean := clean_phrases h inner (List.mem_of_head? found)
    split
    · have first : ∀ w ∈ (phrases inner.children).head?, w.Clean rule :=
        fun w found => clean_phrases clean.children w (List.mem_of_head? found)
      exact (yields_exprOf first).bind fun e plain => yields_pure (one plain).1
    · exact clean.expr.bind fun e plain => yields_pure (one plain).2

/-- Every form of statement obeys a rule if its parts and what it comes with do. -/
theorem yields_statements (label : Label) (tags : DocTags)
    (admits : Admits rule label.head.kind (fieldText children "name"))
    : Yields rule (statements label tags children) fun body => ∀ s ∈ body, s.Obeys rule := by
  have one {s : Stmt} (plain : s.Obeys rule) : ∀ t ∈ [s], t.Obeys rule :=
    List.forall_mem_singleton.mpr plain
  have single {m : Lower Stmt} (plain : Yields rule m (Stmt.Obeys rule))
      : Yields rule (do return [← m]) fun body => ∀ s ∈ body, s.Obeys rule :=
    plain.bind fun s obeys => yields_pure (one obeys)
  have first : Yields rule (exprOf (phrases children).head?) fun e => Obeyed rule e.parts :=
    yields_exprOf fun w found => clean_phrases h w (List.mem_of_head? found)
  have cond : Yields rule (condition children) fun e => Obeyed rule e.parts :=
    yields_exprOf (clean_inField? h "condition")
  have body := yields_bodyOf h "body"
  have all : Yields rule (flatExprsOf (phrases children)) fun es => ∀ e ∈ es, Obeyed rule e.parts :=
    yields_flatExprsOf (clean_phrases h)
  have declared (kind : label.head.kind ∈ declaringKinds) :=
    yields_declarations h label tags (admits.declares kind)
  unfold statements
  split
  iterate 5 (next => exact yields_pure (by simp))
  next => exact (yields_useDecl children).bind fun _ _ => yields_pure (by simp)
  next kind => exact single (yields_bracedNamespace h (admits.space kind) label)
  next kind =>
    exact (declared (by simp [kind, declaringKinds])).1.bind fun d plain => yields_pure (one plain)
  next kind =>
    exact (declared (by simp [kind, declaringKinds])).2.1.bind fun d plain => yields_pure (one plain)
  next kind =>
    exact (declared (by simp [kind, declaringKinds])).2.2.bind fun d plain => yields_pure (one plain)
  iterate 2
    (next =>
      refine (yields_stmtsOf (clean_phrases h)).bind fun b each => yields_pure (one ?_)
      exact Stmt.obeys_of_parts nofun rfl rfl (obeyed_stmts.mpr each))
  next => exact yields_expressionStmt h
  iterate 2
    (next =>
      refine first.bind fun e plain => yields_pure (one ?_)
      exact Stmt.obeys_of_parts nofun rfl rfl (obeyed_one plain))
  next =>
    refine all.bind fun es each => yields_pure (one ?_)
    exact Stmt.obeys_of_parts nofun rfl rfl (obeyed_exprs.mpr each)
  next =>
    split
    · rename_i v found
      have clean := clean_phrases h v (List.mem_of_head? found)
      refine clean.expr.bind fun e plain => yields_pure (one ?_)
      exact Stmt.obeys_of_parts nofun rfl rfl (obeyed_one plain)
    · exact yields_pure (one (Stmt.obeys_of_parts nofun rfl rfl obeyed_nil))
  next => exact single (yields_ifStmt h)
  next =>
    refine cond.bind fun e plain => body.bind fun b each => yields_pure (one ?_)
    exact Stmt.obeys_of_parts nofun rfl rfl (obeyed_expr_cons.mpr ⟨plain, obeyed_stmts.mpr each⟩)
  next =>
    refine body.bind fun b each => cond.bind fun e plain => yields_pure (one ?_)
    have parts := obeyed_append.mpr ⟨obeyed_stmts.mpr each, obeyed_one plain⟩
    exact Stmt.obeys_of_parts nofun rfl rfl parts
  next => exact single (yields_forStmt h)
  next => exact single (yields_forEachStmt h)
  next => exact single (yields_switchStmt h)
  next => exact single (yields_tryStmt h)
  iterate 2 (next => exact yields_pure (by simp))
  next =>
    refine all.bind fun es each => yields_pure (one ?_)
    exact Stmt.obeys_of_parts nofun rfl rfl (obeyed_exprs.mpr each)

end

theorem clean_assemble {children : List View} (h : ∀ c ∈ children, c.Clean rule) {label : Label}
    (admits : Admits rule label.head.kind (fieldText children "name")) (doc : DocTags)
    : (assemble label doc children).Clean rule :=
  .mk (yields_expression h label) (yields_expressions h label (yields_expression h label))
    (yields_statements h label doc admits) h

end Lowering

namespace Cst

mutual

/-- All nodes of a tree. -/
def nodes : Cst → List Cst
  | node head children => node head children :: nodesOf children

def nodesOf : List Cst → List Cst
  | [] => []
  | c :: rest => c.nodes ++ nodesOf rest

end

def fieldText (source : Source) (field : String) (c : Cst) : String :=
  ((c.children.find? fun d => d.head.field == field).map fun d =>
    source.text d.head.start d.head.stop).getD ""

end Cst

namespace Lowering

variable {rule : NameRule}

/-- A field is filled in the views of trees as it is in the trees. -/
theorem label_inField? (source : Source) (previous : Option CstHead) (field : String) (trees : List Cst)
    : (inField? (views source previous trees) field).map View.label
      = (trees.find? fun c => c.head.field == field).map fun c => labelOf source c.head := by
  induction trees generalizing previous with
  | nil => rfl
  | cons c rest ih =>
    have here : (view source previous c).field = c.head.field :=
      congrArg (·.head.field) (label_view source previous c)
    rw [views, inField?, List.find?_cons, List.find?_cons, here]
    cases c.head.field == field with
    | true => exact congrArg some (label_view source previous c)
    | false => exact ih (some c.head)

theorem fieldText_views (source : Source) (field : String) (head : CstHead) (children : List Cst)
    : fieldText (views source none children) field = (Cst.node head children).fieldText source field := by
  have text : View.text = Label.text ∘ View.label := rfl
  rw [fieldText, fieldText?, text, ← Option.map_map, label_inField?, Option.map_map]
  rfl

mutual

/-- Views are clean from the leaves up. -/
theorem clean_view (source : Source) (previous : Option CstHead) : ∀ tree : Cst,
    (∀ n ∈ tree.nodes, Admits rule n.head.kind (n.fieldText source "name"))
      → (view source previous tree).Clean rule
  | .node head children => by
    intro admits
    rw [Cst.nodes, List.forall_mem_cons] at admits
    refine clean_assemble (clean_views source none children admits.2) ?_ _
    rw [fieldText_views source "name" head]
    exact admits.1

theorem clean_views (source : Source) (previous : Option CstHead) : ∀ trees : List Cst,
    (∀ n ∈ Cst.nodesOf trees, Admits rule n.head.kind (n.fieldText source "name"))
      → ∀ v ∈ views source previous trees, v.Clean rule
  | [] => by simp [views]
  | tree :: rest => by
    intro admits
    rw [views]
    rw [Cst.nodesOf, List.forall_mem_append] at admits
    exact List.forall_mem_cons.mpr
      ⟨clean_view source previous tree admits.1, clean_views source (some tree.head) rest admits.2⟩

end

end Lowering

end DesignMetrics
