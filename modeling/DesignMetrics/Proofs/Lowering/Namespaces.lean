import DesignMetrics.Proofs.Lowering.Statements

/-! Declared names and their namespaces.
A namespace with braces is in effect from its start to its end, one without braces up to the next one,
and what is outside of all of them is in the global one. So a name and the namespace around it stay in
step in both forms.
-/

namespace DesignMetrics

def NameRule.within (space : String) : NameRule where
  scopes scope := scope.space = space
  names name := (splitQualified name).1 = space
  spaces := False
  addAlias _ _ := id
  enter _ _ := False.elim

/-- A name without a backslash is declared in the namespace that is in effect. -/
theorem splitQualified_qualify (scope : NameScope) {name : String} (plain : '\\' ∉ name.toList)
    : (splitQualified (scope.qualify name)).1 = scope.space := by
  unfold NameScope.qualify
  split
  · rename_i outside
    rw [splitQualified, Text.splitLast?_of_notMem plain]
    exact (String.isEmpty_iff.mp outside).symm
  · rw [splitQualified, Text.splitLast?_append (by rfl) scope.space plain]
    rfl

def InStep (entry : String × String) : Prop := (splitQualified entry.2).1 = entry.1

instance (entry : String × String) : Decidable (InStep entry) :=
  inferInstanceAs (Decidable (_ = _))

/-- Names under the rule of a namespace are in it if they stand in it. -/
theorem Part.Obeys.inStep {space : String} {p : Part} (h : p.Obeys (.within space))
    : ∀ entry ∈ p.names space, InStep entry := by
  induction h with
  | @mk p here below ih =>
    have inside : p.spaceBelow space = space := by
      unfold spaceBelow
      split
      · exact here.elim
      · rfl
    rw [names_eq, inside, List.forall_mem_append, List.forall_mem_map]
    constructor
    · intro name declared
      rw [Option.mem_toList] at declared
      unfold NameRule.Allows at here
      split at here
      · exact here.elim
      · exact here.elim
      · exact here name declared
    · intro entry member
      obtain ⟨q, inside, found⟩ := List.mem_flatMap.mp member
      exact ih q inside entry found

def Stmt.Grouped (s : Stmt) : Prop :=
  (∃ d, s = .inNamespace d ∧ ∀ t ∈ d.body, t.Obeys (.within (d.name.getD ""))) ∨ s.Obeys (.within "")

theorem Stmt.Grouped.inStep {s : Stmt} (h : s.Grouped)
    : ∀ entry ∈ (Part.stmt s).names "", InStep entry := by
  rcases h with ⟨d, rfl, obeys⟩ | obeys
  · intro entry member
    rw [Part.names_eq] at member
    obtain ⟨p, inside, found⟩ := List.mem_flatMap.mp (List.mem_append.mp member |>.resolve_left nofun)
    have own : p ∈ Part.stmts d.body := by
      simpa [Part.below, Part.children, parts, Part.held, held, Part.values, values] using inside
    obtain ⟨t, there, rfl⟩ := List.mem_map.mp own
    exact (obeys t there).inStep entry found
  · exact Part.Obeys.inStep obeys

namespace Lowering

/-- Whether a view is a namespace in which no other is declared, or something without namespaces. -/
structure Outer (v : View) : Prop where
  children (space : String) : ∀ c ∈ v.children, c.Clean (.within space)
  space : v.kind = "namespace_definition" → v.stmts = do return [← bracedNamespace v.label v.children]
  other (space : String) : v.kind ≠ "namespace_definition" → v.Clean (.within space)

/-- A namespace with braces has its own names and leaves the global one in effect. -/
theorem yields_bracedNamespace_grouped {children : List View}
    (h : ∀ space, ∀ c ∈ children, c.Clean (.within space)) (label : Label)
    : Yields (.within "") (bracedNamespace label children) Stmt.Grouped := by
  intro scope _
  let name := fieldText children "name"
  obtain ⟨body, kept⟩ := yields_bodyOf (h (scope.enter name).space) "body" (scope.enter name) rfl
  refine ⟨.inl ⟨_, rfl, fun t member => ?_⟩, rfl⟩
  have named : (if name.isEmpty then none else some ((bodyOf children "body").run (scope.enter name)).2.space
      : Option String).getD "" = (scope.enter name).space := by
    split
    · rename_i global
      rw [String.isEmpty_iff.mp global]
      rfl
    · exact kept
  exact Eq.subst (motive := fun space => t.Obeys (.within space)) named.symm (body t member)

/-- Without open namespaces, every statement is in step. -/
theorem yields_program_braced {views : List View} (h : ∀ v ∈ views, Outer v)
    (braced : ∀ v ∈ views, isOpenNamespace v = false)
    : Yields (.within "") (program none views) fun body => ∀ s ∈ body, s.Grouped := by
  induction views with
  | nil => exact yields_pure (by simp)
  | cons v views ih =>
    obtain ⟨first, others⟩ := List.forall_mem_cons.mp h
    obtain ⟨closed, later⟩ := List.forall_mem_cons.mp braced
    have here : Yields (.within "") v.stmts fun body => ∀ s ∈ body, s.Grouped := by
      by_cases kind : v.kind = "namespace_definition"
      · rw [first.space kind]
        refine (yields_bracedNamespace_grouped first.children v.label).bind fun s grouped => ?_
        exact yields_pure (List.forall_mem_singleton.mpr grouped)
      · exact fun scope kept => ((first.other "" kind).stmts scope kept).imp_left fun each s member =>
          .inr (each s member)
    unfold program
    rw [if_neg (by simp [closed])]
    refine here.bind fun lowered each => (ih others later).bind fun rest more => yields_pure ?_
    exact List.forall_mem_append.mpr ⟨each, more⟩

/-- With open namespaces only, the namespace in effect is the one that takes the statements, and every
statement is in step.
-/
theorem grouped_program_open {views : List View} (h : ∀ v ∈ views, Outer v)
    (opened : ∀ v ∈ views, v.kind = "namespace_definition" → isOpenNamespace v)
    {current : Option NamespaceDecl} {scope : NameScope}
    (now : scope.space = (current.bind NamespaceDecl.name).getD "")
    (obeys : ∀ d ∈ current, ∀ s ∈ d.body, s.Obeys (.within scope.space))
    : ∀ s ∈ ((program current views).run scope).1, s.Grouped := by
  have closed {current : Option NamespaceDecl} {scope : NameScope}
      (now : scope.space = (current.bind NamespaceDecl.name).getD "")
      (obeys : ∀ d ∈ current, ∀ s ∈ d.body, s.Obeys (.within scope.space))
      : ∀ s ∈ (current.map Stmt.inNamespace).toList, s.Grouped := by
    intro s member
    obtain ⟨d, rfl, rfl⟩ := Option.map_eq_some_iff.mp (Option.mem_toList.mp member)
    exact .inl ⟨d, rfl, now ▸ obeys d rfl⟩
  induction views generalizing current scope with
  | nil => exact closed now obeys
  | cons v views ih =>
    obtain ⟨first, others⟩ := List.forall_mem_cons.mp h
    obtain ⟨isOpen, later⟩ := List.forall_mem_cons.mp opened
    unfold program
    by_cases kind : isOpenNamespace v
    · rw [if_pos kind]
      refine List.forall_mem_append.mpr ⟨closed now obeys, ih others later rfl fun d same => ?_⟩
      exact Option.some.inj same ▸ by simp
    · rw [if_neg kind]
      have clean := first.other scope.space fun same => kind (isOpen same)
      obtain ⟨each, kept⟩ := clean.stmts scope rfl
      cases current with
      | none =>
        have global : scope.space = "" := now
        refine List.forall_mem_append.mpr ⟨fun s member => .inr ?_, ih others later (kept.trans now) nofun⟩
        exact global ▸ each s member
      | some decl =>
        refine ih others later (kept.trans now) fun d same => Option.some.inj same ▸ ?_
        exact kept.symm ▸ List.forall_mem_append.mpr ⟨obeys decl rfl, each⟩

end Lowering

namespace Cst

def isNamespace (c : Cst) : Bool := c.head.kind == "namespace_definition"

def hasBody (c : Cst) : Bool := c.children.any fun d => d.head.field == "body"

/-- Whether namespaces are declared directly in a file only, all of them with a body or all without
one, and the names of all declarations have no backslash.
-/
structure Regular (source : Source) (tree : Cst) : Prop where
  outermost : ∀ c ∈ tree.children, ∀ n ∈ nodesOf c.children, ¬n.isNamespace
  alike : (∀ c ∈ tree.children, c.isNamespace → c.hasBody)
    ∨ ∀ c ∈ tree.children, c.isNamespace → ¬c.hasBody
  names : ∀ n ∈ tree.nodes, n.head.kind ∈ Lowering.declaringKinds
    → '\\' ∉ (n.fieldText source "name").toList

theorem mem_nodesOf {c n : Cst} {trees : List Cst} (member : c ∈ trees) (inside : n ∈ c.nodes)
    : n ∈ nodesOf trees := by
  induction trees with
  | nil => simp at member
  | cons d trees ih =>
    rcases List.mem_cons.mp member with rfl | later
    · exact List.mem_append_left _ inside
    · exact List.mem_append_right _ (ih later)

end Cst

namespace Lowering

variable {source : Source}

/-- A node that declares no namespace keeps to any. -/
theorem admits_within {n : Cst} (space : String) (other : ¬n.isNamespace)
    (plain : n.head.kind ∈ declaringKinds → '\\' ∉ (n.fieldText source "name").toList)
    : Admits (.within space) n.head.kind (n.fieldText source "name") := by
  refine ⟨fun kind => other (by simp [Cst.isNamespace, kind]), fun kind scope kept => ?_⟩
  exact (splitQualified_qualify scope (plain kind)).trans kept

theorem outer_view (previous : Option CstHead) {tree : Cst}
    (inner : ∀ n ∈ Cst.nodesOf tree.children, ¬n.isNamespace)
    (plain : ∀ n ∈ tree.nodes, n.head.kind ∈ declaringKinds → '\\' ∉ (n.fieldText source "name").toList)
    : Outer (view source previous tree) := by
  obtain ⟨head, children⟩ := tree
  rw [Cst.nodes] at plain
  obtain ⟨own, below⟩ := List.forall_mem_cons.mp plain
  have admits (space : String) (n : Cst) (member : n ∈ Cst.nodesOf children) :=
    admits_within space (inner n member) (below n member)
  refine ⟨fun space => clean_views source none children (admits space), fun kind => ?_,
    fun space kind => clean_view source previous (.node head children) ?_⟩
  · have same : (labelOf source head).head.kind = "namespace_definition" := kind
    change statements (labelOf source head) _ (views source none children)
      = do return [← bracedNamespace (labelOf source head) (views source none children)]
    simp [statements, same]
  · rw [Cst.nodes]
    refine List.forall_mem_cons.mpr ⟨admits_within space (fun same => kind ?_) own, admits space⟩
    exact eq_of_beq same

theorem isOpenNamespace_view (previous : Option CstHead) (tree : Cst)
    : isOpenNamespace (view source previous tree) = (tree.isNamespace && !tree.hasBody) := by
  obtain ⟨head, children⟩ := tree
  have body := congrArg Option.isSome (label_inField? source none "body" children)
  rw [Option.isSome_map, Option.isSome_map, List.isSome_find?] at body
  change (head.kind == "namespace_definition" && (inField? (views source none children) "body").isNone) = _
  rw [← Option.not_isSome, body]
  rfl

theorem mem_views {previous : Option CstHead} {trees : List Cst} {v : View}
    (member : v ∈ views source previous trees) : ∃ c ∈ trees, ∃ p, v = view source p c := by
  induction trees generalizing previous with
  | nil => simp [views] at member
  | cons c trees ih =>
    rcases List.mem_cons.mp member with rfl | later
    · exact ⟨c, List.mem_cons_self, previous, rfl⟩
    · obtain ⟨d, inside, p, same⟩ := ih later
      exact ⟨d, List.mem_cons_of_mem _ inside, p, same⟩

/-- The statements of a file with a regular tree are in step. -/
theorem grouped_statementsOf (bytes : ByteArray) {tree : Cst} (regular : tree.Regular (.ofBytes bytes))
    : ∀ s ∈ statementsOf bytes tree, s.Grouped := by
  obtain ⟨head, children⟩ := tree
  have found (v : View) (member : v ∈ phrases (views (.ofBytes bytes) none children))
      : ∃ c ∈ children, ∃ p, v = view (.ofBytes bytes) p c :=
    mem_views (List.mem_filter.mp member).1
  have outer : ∀ v ∈ phrases (views (.ofBytes bytes) none children), Outer v := by
    intro v member
    obtain ⟨c, inside, p, rfl⟩ := found v member
    refine outer_view p (regular.outermost c inside) fun n below => regular.names n ?_
    exact List.mem_cons_of_mem _ (Cst.mem_nodesOf inside below)
  rcases regular.alike with braced | opened
  · have closed : ∀ v ∈ phrases (views (.ofBytes bytes) none children), isOpenNamespace v = false := by
      intro v member
      obtain ⟨c, inside, p, rfl⟩ := found v member
      rw [isOpenNamespace_view]
      cases kind : c.isNamespace with
      | true => simp [braced c inside kind]
      | false => rfl
    exact (yields_program_braced outer closed {} rfl).1
  · refine grouped_program_open outer (fun v member kind => ?_) rfl nofun
    obtain ⟨c, inside, p, rfl⟩ := found v member
    have same : c.isNamespace := by
      rw [View.kind, label_view] at kind
      exact beq_iff_eq.mpr kind
    simp [isOpenNamespace_view, same, opened c inside same]

end Lowering

/-- Names stay in step with namespaces. In a file whose namespaces are declared directly in it, all of
them with braces or all without, every type and every function that is declared, however deep, has a
name in the namespace that is declared around it, or in the global one if there is none around it.
-/
theorem declared_names_inStep (path : String) (bytes : ByteArray) (tree : Cst)
    (regular : tree.Regular (.ofBytes bytes))
    : ∀ entry ∈ (SourceFile.ofCst path bytes tree).names, (splitQualified entry.2).1 = entry.1 := by
  intro entry member
  obtain ⟨s, inside, found⟩ := List.mem_flatMap.mp member
  exact (Lowering.grouped_statementsOf bytes regular s inside).inStep entry found

def bracedText : ByteArray :=
  ("<?php namespace A { class B { function m() { function f() {} } } } "
    ++ "namespace { interface I {} }").toUTF8

def bracedTree : Cst :=
  let phrase (kind field : String) (start stop : Nat) (children : List Cst) : Cst :=
    .node ⟨kind, true, field, start, stop⟩ children
  let function : Cst :=
    phrase "function_definition" "" 45 60 [
      phrase "name" "name" 54 55 [], phrase "compound_statement" "body" 58 60 []]
  let method : Cst :=
    phrase "method_declaration" "" 30 62 [
      phrase "name" "name" 39 40 [],
      phrase "compound_statement" "body" 43 62 [function]]
  let type : Cst :=
    phrase "class_declaration" "" 20 64 [
      phrase "name" "name" 26 27 [], phrase "declaration_list" "body" 28 64 [method]]
  let interface : Cst :=
    phrase "interface_declaration" "" 79 93 [
      phrase "name" "name" 89 90 [], phrase "declaration_list" "body" 91 93 []]
  phrase "program" "" 0 95 [
    phrase "namespace_definition" "" 6 66 [
      phrase "namespace_name" "name" 16 17 [],
      phrase "compound_statement" "body" 18 66 [type]],
    phrase "namespace_definition" "" 67 95 [
      phrase "compound_statement" "body" 77 95 [interface]]]

/-- The class and the function in its method are in the first namespace, the interface in the global one. -/
theorem declared_names_inStep_braced
    : (SourceFile.ofCst "a.php" bracedText bracedTree).names = [("A", "A\\B"), ("A", "A\\f"), ("", "I")]
      ∧ ∀ entry ∈ (SourceFile.ofCst "a.php" bracedText bracedTree).names,
        (splitQualified entry.2).1 = entry.1 := by
  have regular : bracedTree.Regular (.ofBytes bracedText) :=
    ⟨by decide +kernel, .inl (by decide +kernel), by decide +kernel⟩
  exact ⟨by decide +kernel, declared_names_inStep "a.php" bracedText bracedTree regular⟩

end DesignMetrics
