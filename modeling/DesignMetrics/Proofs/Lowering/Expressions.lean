import DesignMetrics.Lowering.Expression
import DesignMetrics.Proofs.Syntax.Names

/-! Rules for what is declared, and expressions.
The expression of a node whose children all obey a rule obeys it, whatever the node is.
-/

namespace DesignMetrics

/-- The scopes that may be in effect, and what may be declared in them. -/
structure NameRule where
  scopes : NameScope → Prop
  names : String → Prop
  spaces : Prop
  addAlias {scope : NameScope} (target : String) (short : Option String)
    : scopes scope → scopes (scope.addAlias target short)
  enter (scope : NameScope) (space : String) : spaces → scopes (scope.enter space)

def NameRule.Allows (rule : NameRule) : Part → Prop
  | .stmt (.declared _) => False
  | .stmt (.inNamespace _) => rule.spaces
  | p => ∀ name ∈ p.name?, rule.names name

/-- Whether everything in a part may be declared. -/
inductive Part.Obeys (rule : NameRule) : Part → Prop
  | mk {p : Part} (here : rule.Allows p) (below : ∀ q ∈ p.below, q.Obeys rule) : p.Obeys rule

def Stmt.Obeys (rule : NameRule) (s : Stmt) : Prop := (Part.stmt s).Obeys rule

def Obeyed (rule : NameRule) (parts : List Part) : Prop := ∀ p ∈ parts, p.Obeys rule

section

variable {rule : NameRule} {parts more : List Part}

theorem Part.obeys_iff {p : Part} : p.Obeys rule ↔ rule.Allows p ∧ Obeyed rule p.below :=
  ⟨fun ⟨here, below⟩ => ⟨here, below⟩, fun ⟨here, below⟩ => ⟨here, below⟩⟩

@[simp] theorem obeyed_nil : Obeyed rule [] := by simp [Obeyed]

@[simp] theorem obeyed_append : Obeyed rule (parts ++ more) ↔ Obeyed rule parts ∧ Obeyed rule more :=
  List.forall_mem_append

@[simp] theorem obeyed_flatMap {α : Type} {items : List α} {f : α → List Part}
    : Obeyed rule (items.flatMap f) ↔ ∀ a ∈ items, Obeyed rule (f a) := by
  simp only [Obeyed, List.mem_flatMap]
  grind

@[simp] theorem obeyed_stmts {body : List Stmt}
    : Obeyed rule (Part.stmts body) ↔ ∀ s ∈ body, s.Obeys rule := by
  simp [Obeyed, Part.stmts, Stmt.Obeys]

variable {e : Expr}

@[simp] theorem obeyed_expr_cons
    : Obeyed rule (.expr e :: more) ↔ Obeyed rule e.parts ∧ Obeyed rule more := by
  have single : (Part.expr e).Obeys rule ↔ Obeyed rule e.parts := by
    simp [Part.obeys_iff, NameRule.Allows, Part.name?, Part.below, Part.held, Part.values, Part.children]
  rw [← single]
  exact List.forall_mem_cons

@[simp] theorem obeyed_exprs {values : List Expr}
    : Obeyed rule (Part.exprs values) ↔ ∀ e ∈ values, Obeyed rule e.parts := by
  induction values with
  | nil => simp [Part.exprs]
  | cons e values ih =>
    rw [List.forall_mem_cons, ← ih]
    exact obeyed_expr_cons

theorem obeyed_one (h : Obeyed rule e.parts) : Obeyed rule [.expr e] :=
  obeyed_expr_cons.mpr ⟨h, obeyed_nil⟩

theorem obeyed_pair {f : Expr} (h : Obeyed rule e.parts) (h' : Obeyed rule f.parts)
    : Obeyed rule [.expr e, .expr f] :=
  obeyed_expr_cons.mpr ⟨h, obeyed_one h'⟩

theorem Stmt.obeys_iff {s : Stmt}
    : s.Obeys rule ↔ rule.Allows (.stmt s) ∧ Obeyed rule s.parts ∧ (∀ t ∈ s.held, t.Obeys rule)
      ∧ Obeyed rule s.values := by
  rw [Obeys, Part.obeys_iff, Part.below, obeyed_append, obeyed_append, Part.held, obeyed_stmts]
  rfl

/-- What is no declaration obeys the rule if its parts do. -/
theorem Stmt.obeys_of_parts {s : Stmt} (allowed : rule.Allows (.stmt s)) (held : s.held = [])
    (values : s.values = []) (parts : Obeyed rule s.parts) : s.Obeys rule :=
  obeys_iff.mpr ⟨allowed, parts, by simp [held], by simp [values]⟩

theorem obeyed_unknown : Obeyed rule Expr.unknown.parts := by
  simp [Expr.unknown, Expr.parts]

end

def Yields (rule : NameRule) {α : Type} (m : Lower α) (P : α → Prop) : Prop :=
  ∀ scope, rule.scopes scope → P (m.run scope).1 ∧ rule.scopes (m.run scope).2

section

variable {rule : NameRule} {α β : Type} {P : α → Prop} {Q : β → Prop}

theorem yields_pure {a : α} (h : P a) : Yields rule (pure a) P := fun _ kept => ⟨h, kept⟩

theorem Yields.bind {m : Lower α} {f : α → Lower β} (h : Yields rule m P)
    (next : ∀ a, P a → Yields rule (f a) Q) : Yields rule (m >>= f) Q := by
  intro scope kept
  obtain ⟨result, still⟩ := h scope kept
  exact next _ result _ still

/-- The scope in effect. -/
theorem yields_get : Yields rule get rule.scopes := fun _ kept => ⟨kept, kept⟩

theorem yields_modify {f : NameScope → NameScope} (h : ∀ scope, rule.scopes scope → rule.scopes (f scope))
    : Yields rule (modify f) fun _ => True :=
  fun scope kept => ⟨trivial, h scope kept⟩

theorem yields_inOrder {γ : Type} {items : List γ} {f : γ → Lower α}
    (h : ∀ a ∈ items, Yields rule (f a) P)
    : Yields rule (Lowering.inOrder (items.map f)) fun as => ∀ a ∈ as, P a := by
  induction items with
  | nil => exact yields_pure (by simp)
  | cons a items ih =>
    obtain ⟨first, others⟩ := List.forall_mem_cons.mp h
    refine first.bind fun a one => (ih others).bind fun as more => ?_
    exact yields_pure (List.forall_mem_cons.mpr ⟨one, more⟩)

end

/-- Whether all ways in which a node, or a node below it, can be lowered obey a rule. -/
inductive View.Clean (rule : NameRule) : View → Prop
  | mk {v : View} (expr : Yields rule v.expr fun e => Obeyed rule e.parts)
      (exprs : Yields rule v.exprs fun es => ∀ e ∈ es, Obeyed rule e.parts)
      (stmts : Yields rule v.stmts fun body => ∀ s ∈ body, s.Obeys rule)
      (children : ∀ c ∈ v.children, c.Clean rule)
    : v.Clean rule

namespace View.Clean

variable {rule : NameRule} {v : View} (h : v.Clean rule)

include h

theorem expr : Yields rule v.expr fun e => Obeyed rule e.parts := by cases h; assumption

theorem exprs : Yields rule v.exprs fun es => ∀ e ∈ es, Obeyed rule e.parts := by cases h; assumption

theorem stmts : Yields rule v.stmts fun body => ∀ s ∈ body, s.Obeys rule := by cases h; assumption

theorem children : ∀ c ∈ v.children, c.Clean rule := by cases h; assumption

end View.Clean

section

variable {rule : NameRule} {v : Option View}

/-- What is yielded for an optional node. -/
theorem yields_exprOf (h : ∀ w ∈ v, w.Clean rule)
    : Yields rule (exprOf v) fun e => Obeyed rule e.parts := by
  cases v with
  | none => exact yields_pure obeyed_unknown
  | some v => exact (h v rfl).expr

section

variable {views : List View} (h : ∀ v ∈ views, v.Clean rule)

include h

theorem yields_exprsOf : Yields rule (exprsOf views) fun es => ∀ e ∈ es, Obeyed rule e.parts := by
  induction views with
  | nil => exact yields_pure (by simp)
  | cons v views ih =>
    obtain ⟨first, others⟩ := List.forall_mem_cons.mp h
    refine first.expr.bind fun e one => (ih others).bind fun es more => ?_
    exact yields_pure (List.forall_mem_cons.mpr ⟨one, more⟩)

theorem yields_flatExprsOf : Yields rule (flatExprsOf views) fun es => ∀ e ∈ es, Obeyed rule e.parts := by
  induction views with
  | nil => exact yields_pure (by simp)
  | cons v views ih =>
    obtain ⟨first, others⟩ := List.forall_mem_cons.mp h
    refine first.exprs.bind fun e some => (ih others).bind fun es more => ?_
    exact yields_pure (List.forall_mem_append.mpr ⟨some, more⟩)

theorem yields_stmtsOf : Yields rule (stmtsOf views) fun body => ∀ s ∈ body, s.Obeys rule := by
  induction views with
  | nil => exact yields_pure (by simp)
  | cons v views ih =>
    obtain ⟨first, others⟩ := List.forall_mem_cons.mp h
    refine first.stmts.bind fun e some => (ih others).bind fun es more => ?_
    exact yields_pure (List.forall_mem_append.mpr ⟨some, more⟩)

theorem clean_phrases : ∀ v ∈ phrases views, v.Clean rule :=
  fun v member => h v (List.mem_filter.mp member).1

theorem clean_inField? (field : String) : ∀ v ∈ inField? views field, v.Clean rule :=
  fun v found => h v (List.mem_of_find?_eq_some found)

theorem clean_withoutField (field : String) : ∀ v ∈ withoutField views field, v.Clean rule :=
  fun v member => h v (List.mem_of_mem_eraseP member)

omit h in
theorem yields_blockOf {v : View} (clean : v.Clean rule)
    : Yields rule (blockOf v) fun body => ∀ s ∈ body, s.Obeys rule := by
  unfold blockOf
  split
  · exact yields_stmtsOf (clean_phrases clean.children)
  · exact clean.stmts

theorem yields_bodyOf (field : String)
    : Yields rule (bodyOf views field) fun body => ∀ s ∈ body, s.Obeys rule := by
  unfold bodyOf
  split
  · exact yields_blockOf (clean_inField? h field _ ‹_›)
  · exact yields_pure (by simp)

end

namespace Lowering

section

variable {children : List View} (h : ∀ c ∈ children, c.Clean rule)

theorem yields_memberName (h : ∀ w ∈ v, w.Clean rule)
    : Yields rule (memberName v) fun m => Obeyed rule m.parts := by
  unfold memberName
  split
  · exact yields_pure (by simp [MemberName.parts])
  · split
    · exact yields_pure (by simp [MemberName.parts])
    · exact (h _ rfl).expr.bind fun e one => yields_pure (obeyed_one one)

theorem yields_classRef (h : ∀ w ∈ v, w.Clean rule)
    : Yields rule (classRef v) fun c => Obeyed rule c.parts := by
  unfold classRef
  split
  · exact yields_pure (obeyed_one obeyed_unknown)
  · split
    · exact yields_get.bind fun scope _ => yields_pure (by simp [ClassRef.parts])
    · exact (h _ rfl).expr.bind fun e one => yields_pure (obeyed_one one)

theorem yields_argument {v : View} (h : v.Clean rule)
    : Yields rule (argument v) fun e => Obeyed rule e.parts := by
  unfold argument
  split
  · exact yields_exprOf fun w last => clean_phrases h.children w (List.mem_of_getLast? last)
  · exact h.expr

theorem yields_param? {v : View} (h : v.Clean rule)
    : Yields rule (param? v) fun p => ∀ q ∈ p, Obeyed rule q.parts := by
  unfold param?
  simp only [pure_bind]
  split
  · refine yields_get.bind fun scope _ => ?_
    split
    · refine (clean_inField? h.children _ _ ‹_›).expr.bind fun e default => yields_pure ?_
      exact fun q same => Option.some.inj same ▸ obeyed_one default
    · exact yields_pure fun q same => Option.some.inj same ▸ obeyed_nil
  · exact yields_pure (by simp)

include h

theorem yields_arguments : Yields rule (arguments children) fun es => ∀ e ∈ es, Obeyed rule e.parts := by
  unfold arguments
  split
  · rename_i list found
    have clean := clean_phrases (clean_inField? h _ _ found).children
    exact yields_inOrder fun v inside => yields_argument (clean v inside)
  · exact yields_pure (by simp)

theorem yields_params : Yields rule (params children) fun ps => ∀ p ∈ ps, Obeyed rule p.parts := by
  unfold params
  split
  · rename_i list found
    have clean := clean_phrases (clean_inField? h _ _ found).children
    refine (yields_inOrder fun v inside => yields_param? (clean v inside)).bind fun ps each => ?_
    refine yields_pure fun p member => ?_
    obtain ⟨o, inside, same⟩ := List.mem_filterMap.mp member
    exact each o inside p same
  · exact yields_pure (by simp)

theorem yields_closure (kind : String)
    : Yields rule (closure kind children) fun e => Obeyed rule e.parts := by
  unfold closure
  refine (yields_params h).bind fun ps params => yields_get.bind fun scope _ => ?_
  have whole {body : List Stmt} (each : ∀ s ∈ body, s.Obeys rule) (uses : List String)
      (type : Option TypeRef) : Obeyed rule (Expr.closure ps uses type body).parts := by
    exact obeyed_append.mpr ⟨obeyed_flatMap.mpr params, obeyed_stmts.mpr each⟩
  simp only [pure_bind]
  split
  · have clean := clean_inField? h _ _ ‹_›
    split
    · refine clean.expr.bind fun e one => yields_pure (whole ?_ _ _)
      exact List.forall_mem_singleton.mpr (Stmt.obeys_of_parts nofun rfl rfl (obeyed_one one))
    · exact (yields_blockOf clean).bind fun body each => yields_pure (whole each _ _)
  · exact yields_pure (whole (by simp) _ _)

theorem yields_objectCreation
    : Yields rule (objectCreation children) fun e => Obeyed rule e.parts := by
  unfold objectCreation
  refine (yields_arguments h).bind fun args each => ?_
  simp only [pure_bind]
  split
  · exact yields_pure (obeyed_expr_cons.mpr ⟨obeyed_unknown, obeyed_exprs.mpr each⟩)
  · refine (yields_classRef fun w found => ?_).bind fun c owner => yields_pure ?_
    · exact clean_phrases h w (List.mem_of_find?_eq_some found)
    · exact obeyed_append.mpr ⟨owner, obeyed_exprs.mpr each⟩

theorem yields_binary : Yields rule (binary children) fun e => Obeyed rule e.parts := by
  unfold binary
  simp only
  split
  · refine (yields_classRef (clean_inField? h _)).bind fun c owner => ?_
    refine (yields_exprOf (clean_inField? h _)).bind fun e value => yields_pure ?_
    exact obeyed_expr_cons.mpr ⟨value, owner⟩
  · refine (yields_exprOf (clean_inField? h _)).bind fun e left => ?_
    refine (yields_exprOf (clean_inField? h _)).bind fun e right => yields_pure ?_
    exact obeyed_pair left right

theorem yields_assignment (operator : String)
    : Yields rule (assignment operator children) fun e => Obeyed rule e.parts := by
  unfold assignment
  refine (yields_exprOf (clean_inField? h _)).bind fun e target => ?_
  refine (yields_exprOf (clean_inField? h _)).bind fun e value => yields_pure ?_
  exact obeyed_pair target value

/-- No form of expression has a marker, as its parts have none. -/
theorem yields_expression (label : Label)
    : Yields rule (expression label children) fun e => Obeyed rule e.parts := by
  have operand (field : String) := yields_exprOf (clean_inField? h field)
  have owner (field : String) := yields_classRef (clean_inField? h field)
  have member (field : String) := yields_memberName (clean_inField? h field)
  have first : Yields rule (exprOf (phrases children).head?) fun e => Obeyed rule e.parts :=
    yields_exprOf fun w found => clean_phrases h w (List.mem_of_head? found)
  have last : Yields rule (exprOf (phrases children).getLast?) fun e => Obeyed rule e.parts :=
    yields_exprOf fun w found => clean_phrases h w (List.mem_of_getLast? found)
  have all : Yields rule (flatExprsOf (phrases children)) fun es => ∀ e ∈ es, Obeyed rule e.parts :=
    yields_flatExprsOf (clean_phrases h)
  unfold expression
  simp only [pure_bind]
  split
  next => exact first
  iterate 8 (next => exact yields_pure obeyed_nil)
  next => exact yields_pure obeyed_nil
  iterate 2 (next => exact yields_pure obeyed_nil)
  next =>
    refine (yields_exprsOf fun v inside => ?_).bind fun es each => yields_pure (obeyed_exprs.mpr each)
    obtain ⟨c, outer, inner⟩ := List.mem_flatMap.mp inside
    exact clean_phrases (clean_phrases h c outer).children v inner
  next =>
    refine (operand "function").bind fun callee one => ?_
    refine (yields_arguments h).bind fun args each => yields_pure ?_
    exact obeyed_expr_cons.mpr ⟨one, obeyed_exprs.mpr each⟩
  iterate 2
    (next =>
      refine (operand "object").bind fun object one => (member "name").bind fun m name => ?_
      refine (yields_arguments h).bind fun args each => yields_pure ?_
      exact obeyed_expr_cons.mpr ⟨one, obeyed_append.mpr ⟨name, obeyed_exprs.mpr each⟩⟩)
  next =>
    refine (owner "scope").bind fun c scope => (member "name").bind fun m name => ?_
    refine (yields_arguments h).bind fun args each => yields_pure ?_
    exact obeyed_append.mpr ⟨scope, obeyed_append.mpr ⟨name, obeyed_exprs.mpr each⟩⟩
  iterate 2
    (next =>
      refine (operand "object").bind fun object one => (member "name").bind fun m name => ?_
      exact yields_pure (obeyed_expr_cons.mpr ⟨one, name⟩))
  next => exact (owner "scope").bind fun c scope => yields_pure scope
  next =>
    split
    · rename_i scope constant rest split
      have inside : scope ∈ phrases children := by simp [split]
      refine (yields_classRef (v := some scope) ?_).bind fun c one => yields_pure one
      exact fun w same => Option.some.inj same ▸ clean_phrases h scope inside
    · exact yields_pure obeyed_unknown
  next => exact yields_objectCreation h
  iterate 3 (next => exact yields_closure h _)
  next =>
    refine (operand "condition").bind fun cond one => ?_
    split
    · refine (clean_inField? h _ _ ‹_›).expr.bind fun chosen two => ?_
      refine (operand "alternative").bind fun otherwise three => yields_pure ?_
      exact obeyed_expr_cons.mpr ⟨one, obeyed_pair two three⟩
    · refine (operand "alternative").bind fun otherwise three => yields_pure ?_
      exact obeyed_pair one three
  next => exact yields_binary h
  next => exact yields_assignment h _
  next => exact yields_assignment h _
  next => exact yields_assignment h _
  iterate 6 (next => exact last.bind fun e one => yields_pure (obeyed_one one))
  next => exact all.bind fun es each => yields_pure (obeyed_exprs.mpr each)

theorem yields_expressions (label : Label) {self : Lower Expr}
    (own : Yields rule self fun e => Obeyed rule e.parts)
    : Yields rule (expressions label children self) fun es => ∀ e ∈ es, Obeyed rule e.parts := by
  unfold expressions
  split
  · exact yields_flatExprsOf (clean_phrases h)
  · exact own.bind fun e one => yields_pure (List.forall_mem_singleton.mpr one)

end

end Lowering

end

end DesignMetrics
