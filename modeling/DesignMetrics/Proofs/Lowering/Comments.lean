import DesignMetrics.Lowering.File

/-! Comments in trees.
Lowering does not look at a comment without a field. So a view lowers like the one that is left when all
such comments are taken out, and a tree lowers like one with a comment less, as long as the comment and
the node before it document nothing.
-/

namespace DesignMetrics

-- Views without comments

namespace View

def isAside (v : View) : Bool := v.kind == "comment" && v.field == ""

mutual

def visible : View → View
  | mk label doc expr exprs stmts children => mk label doc expr exprs stmts (visibles children)

def visibles : List View → List View
  | [] => []
  | v :: rest => if v.isAside then visibles rest else v.visible :: visibles rest

end

section

variable (v : View)

@[simp] theorem label_visible : v.visible.label = v.label := by
  cases v
  rfl

@[simp] theorem doc_visible : v.visible.doc = v.doc := by
  cases v
  rfl

@[simp] theorem expr_visible : v.visible.expr = v.expr := by
  cases v
  rfl

@[simp] theorem exprs_visible : v.visible.exprs = v.exprs := by
  cases v
  rfl

@[simp] theorem stmts_visible : v.visible.stmts = v.stmts := by
  cases v
  rfl

@[simp] theorem children_visible : v.visible.children = visibles v.children := by
  cases v
  rfl

@[simp] theorem kind_visible : v.visible.kind = v.kind := congrArg (·.head.kind) v.label_visible

@[simp] theorem field_visible : v.visible.field = v.field :=
  congrArg (·.head.field) v.label_visible

@[simp] theorem text_visible : v.visible.text = v.text := congrArg Label.text v.label_visible

@[simp] theorem span_visible : v.visible.span = v.span := congrArg Label.span v.label_visible

@[simp] theorem isPhrase_visible : v.visible.isPhrase = v.isPhrase := by
  simp only [isPhrase, label_visible, kind_visible]

@[simp] theorem isOneOf_visible (kinds : List String)
    : v.visible.isOneOf kinds = v.isOneOf kinds := by
  simp only [isOneOf, kind_visible]

end

theorem visibles_eq (children : List View)
    : visibles children = (children.filter fun v => !v.isAside).map visible := by
  induction children with
  | nil => rfl
  | cons v rest ih => cases aside : v.isAside <;> simp [visibles, aside, ih]

@[simp] theorem visibles_nil : visibles [] = [] := rfl

@[simp] theorem visibles_cons (v : View) (rest : List View)
    : visibles (v :: rest) = if v.isAside then visibles rest else v.visible :: visibles rest := rfl

theorem visibles_append (left right : List View)
    : visibles (left ++ right) = visibles left ++ visibles right := by
  simp [visibles_eq]

theorem kind_of_isAside {v : View} (h : v.isAside) : v.kind = "comment" := by
  simp only [isAside, Bool.and_eq_true, beq_iff_eq] at h
  exact h.1

theorem field_of_isAside {v : View} (h : v.isAside) : v.field = "" := by
  simp only [isAside, Bool.and_eq_true, beq_iff_eq] at h
  exact h.2

end View

open View

section

variable {p : View → Bool} (blind : ∀ v, p v.visible = p v) (skips : ∀ v, v.isAside → p v = false)
variable (children : List View)

include blind skips

/-- A filter that no comment passes does not see the comments. -/
theorem filter_visibles : (visibles children).filter p = (children.filter p).map visible := by
  have both : (fun v => p v && !v.isAside) = p := by
    funext v
    cases aside : v.isAside with
    | true => simp [skips v aside]
    | false => simp
  rw [visibles_eq, List.filter_map, List.filter_filter]
  simp only [Function.comp_def, blind, both]

/-- A search that no comment satisfies does not see the comments. -/
theorem find?_visibles : (visibles children).find? p = (children.find? p).map visible := by
  rw [← List.head?_filter, ← List.head?_filter, filter_visibles blind skips, List.head?_map]

theorem any_visibles : (visibles children).any p = children.any p := by
  induction children with
  | nil => rfl
  | cons v rest ih =>
    cases aside : v.isAside with
    | true => simp [aside, skips v aside, ih]
    | false => simp [aside, blind, ih]

end

@[simp] theorem phrases_visibles (children : List View)
    : phrases (visibles children) = (phrases children).map visible :=
  filter_visibles isPhrase_visible (fun v aside => by simp [isPhrase, kind_of_isAside aside]) children

theorem find?_visible {p : View → Bool} (blind : ∀ v, p v.visible = p v) (vs : List View)
    : (vs.map visible).find? p = (vs.find? p).map visible := by
  rw [List.find?_map, show p ∘ visible = p from funext blind]

variable {field : String}

section

variable (named : field ≠ "") (children : List View)

include named

@[simp] theorem inField?_visibles
    : inField? (visibles children) field = (inField? children field).map visible :=
  find?_visibles (by simp) (fun v aside => by simp [field_of_isAside aside, named.symm]) children

@[simp] theorem fieldText?_visibles
    : fieldText? (visibles children) field = fieldText? children field := by
  simp [fieldText?, named, Function.comp_def]

@[simp] theorem fieldText_visibles
    : fieldText (visibles children) field = fieldText children field := by
  simp [fieldText, named]

@[simp] theorem withoutField_visibles
    : withoutField (visibles children) field = visibles (withoutField children field) := by
  induction children with
  | nil => rfl
  | cons v rest ih =>
    simp only [withoutField] at ih ⊢
    cases aside : v.isAside with
    | true => simp [aside, field_of_isAside aside, named.symm, ih]
    | false =>
      rw [visibles_cons, if_neg (by simp [aside]), List.eraseP_cons, List.eraseP_cons, field_visible]
      cases v.field == field <;> simp [aside, ih]

end

-- Bodies and lists of phrases

@[simp] theorem exprOf_visible (v : Option View) : exprOf (v.map visible) = exprOf v := by
  cases v <;> simp [exprOf]

@[simp] theorem exprsOf_visible (vs : List View) : exprsOf (vs.map visible) = exprsOf vs := by
  induction vs with
  | nil => rfl
  | cons v rest ih => simp [exprsOf, ih]

@[simp] theorem flatExprsOf_visible (vs : List View) : flatExprsOf (vs.map visible) = flatExprsOf vs := by
  induction vs with
  | nil => rfl
  | cons v rest ih => simp [flatExprsOf, ih]

@[simp] theorem stmtsOf_visible (vs : List View) : stmtsOf (vs.map visible) = stmtsOf vs := by
  induction vs with
  | nil => rfl
  | cons v rest ih => simp [stmtsOf, ih]

@[simp] theorem blockOf_visible (v : View) : blockOf v.visible = blockOf v := by
  simp [blockOf]

@[simp] theorem bodyOf_visibles (named : field ≠ "") (children : List View)
    : bodyOf (visibles children) field = bodyOf children field := by
  rw [bodyOf, bodyOf, inField?_visibles named]
  cases inField? children field <;> simp

variable {tree' tree : Cst}

namespace Lowering

-- Types

mutual

@[simp] theorem typeHint?_visible (scope : NameScope) (v : View)
    : typeHint? scope v.visible = typeHint? scope v := by
  cases v with
  | mk label doc expr exprs stmts children =>
    rw [visible, typeHint?, typeHint?, typeHints_visibles]

@[simp] theorem typeHints_visibles (scope : NameScope) (children : List View)
    : typeHints scope (visibles children) = typeHints scope children := by
  cases children with
  | nil => rfl
  | cons v rest =>
    cases aside : v.isAside with
    | true =>
      rw [visibles_cons, if_pos aside, typeHints_visibles, typeHints]
      simp [isPhrase, kind_of_isAside aside]
    | false =>
      rw [visibles_cons, if_neg (by simp [aside]), typeHints, typeHints, typeHint?_visible,
        typeHints_visibles, isPhrase_visible]

end

variable (scope : NameScope) (label : Label) (tags : DocTags) (v : View) (children vs : List View)

@[simp] theorem typeList_visible : typeList scope v.visible = typeList scope v := by
  simp [typeList]

@[simp] theorem fieldType?_visibles (named : field ≠ "")
    : fieldType? scope (visibles children) field = fieldType? scope children field := by
  cases found : inField? children field <;> simp [fieldType?, named, found]

@[simp] theorem returnType?_visibles
    : returnType? scope (visibles children) tags = returnType? scope children tags := by
  simp [returnType?]

@[simp] theorem modifiersOf_visibles : modifiersOf (visibles children) = modifiersOf children := by
  have written := filter_visibles (p := fun c => "_modifier".toList.isSuffixOf c.kind.toList) (by simp)
    (fun v aside => by rw [kind_of_isAside aside]; decide) children
  rw [modifiersOf, modifiersOf, written, List.filterMap_map]
  simp only [Function.comp_def, text_visible]

@[simp] theorem memberModifiersOf_visibles
    : memberModifiersOf (visibles children) = memberModifiersOf children := by
  simp [memberModifiersOf]

@[simp] theorem nameList_visible : nameList scope v.visible = nameList scope v := by
  simp [nameList, List.filter_map, Function.comp_def]

-- Expressions

@[simp] theorem argument_visible : argument v.visible = argument v := by
  simp [argument]

@[simp] theorem arguments_visibles : arguments (visibles children) = arguments children := by
  cases list : inField? children "arguments" <;> simp [arguments, list, Function.comp_def]

@[simp] theorem memberName_visible (v : Option View) : memberName (v.map visible) = memberName v := by
  cases v <;> simp [memberName]

@[simp] theorem classRef_visible (v : Option View) : classRef (v.map visible) = classRef v := by
  cases v <;> simp [classRef]

@[simp] theorem param?_visible : param? v.visible = param? v := by
  have byRef := any_visibles (p := fun c => c.isOneOf ["reference_modifier", "&"]) (by simp)
    (fun c aside => by simp [isOneOf, kind_of_isAside aside]) v.children
  cases default : inField? v.children "default_value" <;> simp [param?, byRef, default]

@[simp] theorem params_visibles : params (visibles children) = params children := by
  cases list : inField? children "parameters" <;> simp [params, list, Function.comp_def]

@[simp] theorem capturedNames_visibles
    : capturedNames (visibles children) = capturedNames children := by
  simp [capturedNames, List.filter_map, List.flatMap_map, List.map_flatMap, Function.comp_def]

@[simp] theorem closure_visibles (kind : String)
    : closure kind (visibles children) = closure kind children := by
  cases body : inField? children "body" <;> simp [closure, body]

@[simp] theorem objectCreation_visibles
    : objectCreation (visibles children) = objectCreation children := by
  rw [objectCreation, objectCreation, arguments_visibles, phrases_visibles, find?_visible (by simp)]
  simp [Option.any_map]

@[simp] theorem unaryOperator_visible (operand : Option View)
    : unaryOperator label (operand.map visible) = unaryOperator label operand := by
  cases operand <;> simp [unaryOperator]

@[simp] theorem binary_visibles : binary (visibles children) = binary children := by
  simp [binary]

@[simp] theorem assignment_visibles (operator : String)
    : assignment operator (visibles children) = assignment operator children := by
  simp [assignment]

@[simp] theorem expression_visibles
    : expression label (visibles children) = expression label children := by
  unfold expression
  split <;> try simp
  -- What is left looks at phrases inside phrases, at the first two phrases or at an optional branch.
  · simp [List.flatMap_map, ← List.map_flatMap]
  · have owner (v : View) : classRef (some v.visible) = classRef (some v) := classRef_visible (some v)
    rcases phrases children with _ | ⟨scope, _ | ⟨constant, rest⟩⟩ <;> simp [owner]
  · cases inField? children "body" <;> simp

@[simp] theorem expressions_visibles (self : Lower Expr)
    : expressions label (visibles children) self = expressions label children self := by
  simp [expressions]

-- Declarations

@[simp] theorem method_visible : method v.visible = method v := by
  cases body : inField? v.children "body" <;> simp [method, body]

@[simp] theorem propertyDefault?_visible
    : propertyDefault? v.visible = (propertyDefault? v).map visible := by
  cases default : inField? v.children "default_value" with
  | some d => simp [propertyDefault?, default]
  | none =>
    have found := find?_visible (p := fun c => c.kind == "property_initializer") (by simp)
      (phrases v.children)
    cases init : (phrases v.children).find? fun c => c.kind == "property_initializer" <;>
      simp [propertyDefault?, default, init, found]

@[simp] theorem propertyName_visible : propertyName v.visible = propertyName v := by
  have found := find?_visible (p := fun c => c.kind == "variable_name") (by simp) (phrases v.children)
  cases name : inField? v.children "name" <;> simp [propertyName, name, found, Function.comp_def]

@[simp] theorem property_visible (modifiers : Modifiers) (hint : Option TypeRef)
    : property modifiers hint v.visible = property modifiers hint v := by
  cases default : propertyDefault? v <;> simp [property, default]

@[simp] theorem properties_visible : properties v.visible = properties v := by
  simp [properties, List.filter_map, Function.comp_def]

@[simp] theorem constant_visible : constant v.visible = constant v := by
  simp [constant, Function.comp_def]

@[simp] theorem constants_visible : constants v.visible = constants v := by
  simp [constants, List.filter_map, Function.comp_def]

@[simp] theorem membersOf_visible : membersOf v.visible = membersOf v := by
  simp [membersOf]

@[simp] theorem members_visibles : members (visibles children) = members children := by
  cases body : inField? children "body" <;> simp [members, body, Function.comp_def]

@[simp] theorem lastClause?_visibles (kind : String)
    : lastClause? (visibles children) kind = (lastClause? children kind).map visible := by
  simp [lastClause?, List.filter_map, Function.comp_def]

@[simp] theorem classDecl_visibles
    : classDecl label (visibles children) = classDecl label children := by
  simp [classDecl, Option.bind_map, Function.comp_def]

@[simp] theorem interfaceDecl_visibles
    : interfaceDecl label (visibles children) = interfaceDecl label children := by
  simp [interfaceDecl, List.find?_map, Function.comp_def]

@[simp] theorem functionDecl_visibles
    : functionDecl label tags (visibles children) = functionDecl label tags children := by
  simp [functionDecl]

@[simp] theorem importOf?_visible : importOf? v.visible = importOf? v := by
  cases rename : ((phrases v.children).filter fun c => c.kind == "namespace_aliasing_clause").getLast? <;>
    simp [importOf?, rename, List.filter_map, List.find?_map, Function.comp_def]

@[simp] theorem addImport_visible (group : Option String)
    : addImport group v.visible = addImport group v := by
  simp [addImport]

@[simp] theorem addImports_visible (group : Option String)
    : addImports group (vs.map visible) = addImports group vs := by
  induction vs generalizing group with
  | nil => rfl
  | cons v rest ih => simp [addImports, ih, List.filter_map, Function.comp_def]

@[simp] theorem useDecl_visibles : useDecl (visibles children) = useDecl children := by
  have other := any_visibles (p := fun c => c.isOneOf ["function", "const"]) (by simp)
    (fun c aside => by simp [isOneOf, kind_of_isAside aside]) children
  simp [useDecl, other]

-- Statements

@[simp] theorem condition_visibles : condition (visibles children) = condition children := by
  simp [condition]

@[simp] theorem bracedNamespace_visibles
    : bracedNamespace label (visibles children) = bracedNamespace label children := by
  simp [bracedNamespace]

@[simp] theorem branches_visible (b : Branches) : branches b (vs.map visible) = branches b vs := by
  induction vs generalizing b with
  | nil => rfl
  | cons v rest ih => simp [branches, ih]

@[simp] theorem ifStmt_visibles : ifStmt (visibles children) = ifStmt children := by
  have alternatives := filter_visibles (p := fun c => c.field == "alternative") (by simp)
    (fun c aside => by simp [field_of_isAside aside]) children
  simp [ifStmt, alternatives]

@[simp] theorem forHead_visibles (head : ForHead) (place : Nat)
    : forHead head place (visibles children) = forHead head place children := by
  induction children generalizing head place with
  | nil => rfl
  | cons v rest ih =>
    cases aside : v.isAside with
    | true => simp [aside, ih, forHead, isPhrase, kind_of_isAside aside]
    | false => simp [aside, ih, forHead]

@[simp] theorem forStmt_visibles : forStmt (visibles children) = forStmt children := by
  have head : (visibles children).takeWhile (fun c => c.field != "body" && c.kind != ")")
      = visibles (children.takeWhile fun c => c.field != "body" && c.kind != ")") := by
    induction children with
    | nil => rfl
    | cons v rest ih =>
      cases aside : v.isAside with
      | true => simp [aside, ih, kind_of_isAside aside, field_of_isAside aside]
      | false =>
        rw [visibles_cons, if_neg (by simp [aside]), List.takeWhile_cons, List.takeWhile_cons,
          field_visible, kind_visible, ih]
        split <;> simp [aside]
  simp [forStmt, head]

@[simp] theorem forEachBinding_visible (v : Option View)
    : forEachBinding (v.map visible) = forEachBinding v := by
  cases v <;> simp [forEachBinding, ← List.map_take]

@[simp] theorem forEachStmt_visibles : forEachStmt (visibles children) = forEachStmt children := by
  simp [forEachStmt]

@[simp] theorem caseOf?_visible : caseOf? v.visible = caseOf? v := by
  simp [caseOf?]

@[simp] theorem switchStmt_visibles : switchStmt (visibles children) = switchStmt children := by
  cases block : inField? children "body" <;> simp [switchStmt, block, Function.comp_def]

@[simp] theorem catchClause_visible : catchClause v.visible = catchClause v := by
  simp [catchClause, Function.comp_def]

@[simp] theorem handlers_visible (h : Handlers) : handlers h (vs.map visible) = handlers h vs := by
  induction vs generalizing h with
  | nil => rfl
  | cons v rest ih => simp [handlers, ih]

@[simp] theorem tryStmt_visibles : tryStmt (visibles children) = tryStmt children := by
  simp [tryStmt]

@[simp] theorem expressionStmt_visibles
    : expressionStmt (visibles children) = expressionStmt children := by
  cases inner : (phrases children).head? <;> simp [expressionStmt, inner]

theorem statements_visibles
    : statements label tags (visibles children) = statements label tags children := by
  unfold statements
  split <;> try simp
  -- Only a return looks at whether there is a phrase.
  cases (phrases children).head? <;> simp

-- Files

/-- Views of the same children lower alike. -/
theorem visible_assemble {children children' : List View}
    (same : visibles children = visibles children') (doc : DocTags)
    : (assemble label doc children).visible = (assemble label doc children').visible := by
  have expr : expression label children = expression label children' := by
    rw [← expression_visibles, same, expression_visibles]
  have exprs (self : Lower Expr) : expressions label children self = expressions label children' self := by
    rw [← expressions_visibles, same, expressions_visibles]
  have stmts : statements label doc children = statements label doc children' := by
    rw [← statements_visibles, same, statements_visibles]
  rw [assemble, assemble, expr, exprs, stmts, visible, visible, same]

@[simp] theorem isOpenNamespace_visible : isOpenNamespace v.visible = isOpenNamespace v := by
  simp [isOpenNamespace]

theorem program_visible (current : Option NamespaceDecl)
    : program current (vs.map visible) = program current vs := by
  induction vs generalizing current with
  | nil => rfl
  | cons v rest ih => cases current <;> simp [program, ih]

/-- The statements of a file depend on what is visible in its tree. -/
theorem statementsOf_congr (bytes : ByteArray)
    (same : (view (.ofBytes bytes) none tree).visible = (view (.ofBytes bytes) none tree').visible)
    : statementsOf bytes tree = statementsOf bytes tree' := by
  have children := congrArg View.children same
  simp only [children_visible] at children
  rw [statementsOf, ← program_visible, ← phrases_visibles, children, phrases_visibles, program_visible,
    statementsOf]

end Lowering

open Lowering

-- Trees with a comment less

/-- Whether a node is a documentation comment. -/
def Source.IsDocComment (source : Source) (head : CstHead) : Prop :=
  head.kind = "comment" ∧ "/**".toList.isPrefixOf (source.text head.start head.stop).toList

instance (source : Source) (head : CstHead) : Decidable (source.IsDocComment head) :=
  inferInstanceAs (Decidable (_ ∧ _))

/-- Whether the second tree is the first one without a comment somewhere in it. The comment fills no
field, and neither it nor the node right before it is a documentation comment.
-/
inductive Source.DropsComment (source : Source) : Cst → Cst → Prop where
  | here (head : CstHead) (before after : List Cst) (comment : Cst)
      (kind : comment.head.kind = "comment") (field : comment.head.field = "")
      (plain : ¬source.IsDocComment comment.head)
      (undocumented : ∀ previous ∈ before.getLast?, ¬source.IsDocComment previous.head)
      : DropsComment source (.node head (before ++ comment :: after)) (.node head (before ++ after))
  | inside (head : CstHead) (before after : List Cst) {child child' : Cst}
      (drops : DropsComment source child child')
      : DropsComment source (.node head (before ++ child :: after)) (.node head (before ++ child' :: after))

namespace Source

variable {source : Source}

theorem docBefore_of_not_isDocComment {head : CstHead} (plain : ¬source.IsDocComment head)
    : docBefore source (some head) = {} :=
  if_neg plain

theorem DropsComment.head_eq (h : source.DropsComment tree tree') : tree.head = tree'.head := by
  cases h <;> rfl

theorem views_append (previous : Option CstHead) (left right : List Cst)
    : views source previous (left ++ right)
      = views source previous left ++ views source ((left.getLast?.map Cst.head).or previous) right := by
  induction left generalizing previous with
  | nil => rfl
  | cons c left ih =>
    rw [List.cons_append, views, views, ih, List.cons_append, List.getLast?_cons]
    cases left.getLast? <;> rfl

/-- Of the node before, only the documentation matters. -/
theorem views_congr {previous previous' : Option CstHead}
    (same : docBefore source previous = docBefore source previous') (trees : List Cst)
    : views source previous trees = views source previous' trees := by
  cases trees with
  | nil => rfl
  | cons c rest =>
    cases c
    rw [views, views, view, view, same]

/-- A comment that is dropped was not visible. -/
theorem DropsComment.visible_view (h : source.DropsComment tree tree') (previous : Option CstHead)
    : (view source previous tree).visible = (view source previous tree').visible := by
  induction h generalizing previous with
  | here head before after comment kind field plain undocumented =>
    rw [view, view]
    refine visible_assemble _ ?_ _
    have aside : (view source ((before.getLast?.map Cst.head).or none) comment).isAside := by
      simp [isAside, View.kind, View.field, label_view, labelOf, kind, field]
    -- What stands after the comment is documented neither by it nor by what stands before it.
    have following : views source (some comment.head) after
        = views source ((before.getLast?.map Cst.head).or none) after := by
      refine views_congr ((docBefore_of_not_isDocComment plain).trans ?_) after
      cases last : before.getLast? with
      | none => rfl
      | some c => exact (docBefore_of_not_isDocComment (undocumented c last)).symm
    rw [views_append, views_append, visibles_append, visibles_append, views, visibles_cons, if_pos aside,
      following]
  | inside head before after drops ih =>
    rw [view, view]
    refine visible_assemble _ ?_ _
    rename_i child child'
    have aside (p : Option CstHead) : (view source p child).isAside = (view source p child').isAside := by
      simp only [isAside, View.kind, View.field, label_view, drops.head_eq]
    rw [views_append, views_append, visibles_append, visibles_append, views, views, visibles_cons,
      visibles_cons, ih, aside, drops.head_eq]

end Source

/-- Comments do not matter. A file is lowered to the same statements from a tree that has one comment
less, as long as the comment fills no field and neither it nor the node right before it is a
documentation comment.
-/
theorem ofCst_eq_of_dropsComment (path : String) (bytes : ByteArray) {tree tree' : Cst}
    (drops : (Source.ofBytes bytes).DropsComment tree tree')
    : SourceFile.ofCst path bytes tree = SourceFile.ofCst path bytes tree' :=
  congrArg (SourceFile.mk path) (statementsOf_congr bytes (drops.visible_view none))

def commentedTree (comments : List Cst) : Cst :=
  let phrase (kind field : String) (start stop : Nat) (children : List Cst) : Cst :=
    .node ⟨kind, true, field, start, stop⟩ children
  phrase "program" "" 0 46 (phrase "php_tag" "" 0 5 [] :: comments ++ [
    phrase "function_definition" "" 31 46 [
      phrase "name" "name" 40 41 [], phrase "formal_parameters" "parameters" 41 43 [],
      phrase "compound_statement" "body" 44 46 []]])

/-- A comment before the documentation of a function can be dropped, the documentation cannot. -/
theorem ofCst_eq_of_dropsComment_function
    : let bytes := "<?php /* a */ /** @return B */ function f() {}".toUTF8
      let plain : Cst := .node ⟨"comment", true, "", 6, 13⟩ []
      let doc : Cst := .node ⟨"comment", true, "", 14, 30⟩ []
      (Source.ofBytes bytes).DropsComment (commentedTree [plain, doc]) (commentedTree [doc])
      ∧ (Source.ofBytes bytes).IsDocComment doc.head
      ∧ SourceFile.ofCst "a.php" bytes (commentedTree [plain, doc])
        = SourceFile.ofCst "a.php" bytes (commentedTree [doc]) := by
  intro bytes plain doc
  have drops : (Source.ofBytes bytes).DropsComment (commentedTree [plain, doc]) (commentedTree [doc]) :=
    .here _ [_] _ plain rfl rfl (by decide +kernel) (by decide +kernel)
  exact ⟨drops, by decide +kernel, ofCst_eq_of_dropsComment "a.php" bytes drops⟩

end DesignMetrics
