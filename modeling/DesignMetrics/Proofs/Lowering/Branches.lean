import DesignMetrics.Lowering.File
import DesignMetrics.Proofs.Metric.Flattening
import DesignMetrics.Traversal.Recorder

/-! The meaning of `else if`.
Lowering joins an `if` that stands alone in an else branch to the chain around it. Files in which it is
kept in the else branch instead declare the same, are walked through with the same expressions in the
same order, and have the same metrics.
-/

namespace DesignMetrics

namespace Lowering

namespace Branches

def keepElse (b : Branches) (body : List Stmt) : Branches := { b with otherwise := some body }

def joined (b : Branches) : Branches :=
  ⟨b.elseIfs ++ (Stmt.chained b.otherwise).1, (Stmt.chained b.otherwise).2⟩

theorem joined_of_open {b : Branches} (h : b.otherwise = none) : b.joined = b := by
  obtain ⟨elseIfs, otherwise⟩ := b
  obtain rfl : otherwise = none := h
  simp [joined, Stmt.chained]

theorem addElse_eq (b : Branches) (body : List Stmt) : b.addElse body = (b.keepElse body).joined := by
  unfold addElse
  split
  · rfl
  · rename_i other
    have ends : Stmt.chained (some body) = ([], some body) := by
      rcases Stmt.chained_cases (some body) with ends | ⟨cond, first, elseIfs, last, same, _⟩
      · exact ends
      · exact absurd (Option.some.inj same) (other cond first elseIfs last)
    simp [joined, keepElse, ends]

end Branches

def branchesWith (add : Branches → List Stmt → Branches) (b : Branches) : List View → Lower Branches
  | [] => return b
  | v :: rest => do
    match v.kind with
    | "else_if_clause" =>
      let cond ← condition v.children
      let body ← bodyOf v.children "body"
      branchesWith add (b.addElseIf cond body) rest
    | "else_clause" => branchesWith add (add b (← bodyOf v.children "body")) rest
    | _ => branchesWith add b rest

def nestedIf (children : List View) : Lower Stmt := do
  let cond ← condition children
  let body ← bodyOf children "body"
  let b ← branchesWith Branches.keepElse {} (children.filter fun c => c.field == "alternative")
  return .ifElse cond body b.elseIfs b.otherwise

theorem branchesWith_cons (add : Branches → List Stmt → Branches) (b : Branches) (v : View)
    (rest : List View)
    : branchesWith add b (v :: rest)
      = if v.kind = "else_if_clause" then do
          let cond ← condition v.children
          let body ← bodyOf v.children "body"
          branchesWith add (b.addElseIf cond body) rest
        else if v.kind = "else_clause" then do
          let body ← bodyOf v.children "body"
          branchesWith add (add b body) rest
        else branchesWith add b rest := by
  rw [branchesWith]
  split <;> simp_all

theorem branches_eq (b : Branches) (views : List View)
    : branches b views = branchesWith Branches.addElse b views := by
  induction views generalizing b with
  | nil => rfl
  | cons v rest ih =>
    rw [branches, branchesWith_cons]
    split <;> simp_all

/-- Joining can wait until all alternatives are lowered, if an else branch comes last. -/
theorem branchesWith_addElse {views : List View}
    (single : ∀ v ∈ views.dropLast, v.kind ≠ "else_clause") {b : Branches}
    (isOpen : b.otherwise = none)
    : branchesWith Branches.addElse b views
      = Branches.joined <$> branchesWith Branches.keepElse b views := by
  induction views generalizing b with
  | nil => simp [branchesWith, Branches.joined_of_open isOpen]
  | cons v rest ih =>
    have later : ∀ v ∈ rest.dropLast, v.kind ≠ "else_clause" := by
      intro w member
      cases rest with
      | nil => simp at member
      | cons => exact single w (List.mem_cons_of_mem _ member)
    rw [branchesWith_cons, branchesWith_cons]
    split
    · simp only [map_bind]
      exact bind_congr fun cond => bind_congr fun body => ih later isOpen
    · split
      · rename_i kind
        obtain rfl : rest = [] := by
          cases rest with
          | nil => rfl
          | cons => exact absurd kind (single v (by simp))
        simp [branchesWith, Branches.addElse_eq]
      · exact ih later isOpen

/-- Lowering joins the chain of an `if` that is lowered otherwise as it stands. -/
theorem ifStmt_eq_map {children : List View}
    (single : ∀ v ∈ (children.filter fun c => c.field == "alternative").dropLast,
      v.kind ≠ "else_clause")
    : ifStmt children = Stmt.flattenIf <$> nestedIf children := by
  have isOpen : ({} : Branches).otherwise = none := rfl
  simp only [ifStmt, nestedIf, branches_eq, branchesWith_addElse single isOpen, map_bind, map_pure,
    bind_map_left]
  rfl

/-- The children in a field have the heads of the trees in that field. -/
theorem heads_inField (source : Source) (previous : Option CstHead) (children : List Cst) (field : String)
    : ((views source previous children).filter fun v => v.field == field).map (·.label.head)
      = (children.filter fun c => c.head.field == field).map Cst.head := by
  induction children generalizing previous with
  | nil => rfl
  | cons c rest ih =>
    have head : (view source previous c).label.head = c.head :=
      congrArg Label.head (label_view source previous c)
    simp only [views, List.filter_cons, View.field, head]
    split <;> simp [← ih (some c.head), View.field, head]

/-- The statement of an `if` in which an else branch comes last, if there is one. -/
theorem stmts_view_if (source : Source) (previous : Option CstHead) {tree : Cst}
    (kind : tree.head.kind = "if_statement")
    (single : ∀ c ∈ (tree.children.filter fun c => c.head.field == "alternative").dropLast,
      c.head.kind ≠ "else_clause")
    : (view source previous tree).stmts
      = (fun s => [s.flattenIf]) <$> nestedIf (view source previous tree).children := by
  obtain ⟨head, children⟩ := tree
  have last : ∀ v ∈ ((views source none children).filter fun v => v.field == "alternative").dropLast,
      v.kind ≠ "else_clause" := by
    intro v member
    have heads := congrArg List.dropLast (heads_inField source none children "alternative")
    rw [← List.map_dropLast, ← List.map_dropLast] at heads
    obtain ⟨c, there, same⟩ := List.mem_map.mp (heads ▸ List.mem_map_of_mem member)
    rw [View.kind, ← same]
    exact single c there
  have kind : (labelOf source head).head.kind = "if_statement" := kind
  simp only [view, assemble, View.stmts, View.children, statements, kind, ifStmt_eq_map last]
  simp

end Lowering

def Visit.expr? : Visit → Option Visit
  | .expr e => some (.expr e)
  | _ => none

def Visit.flattenedExpr? : Visit → Option Visit
  | .expr e => some (.expr e.flattened)
  | _ => none

def walkOf (files : List (SourceFile × String)) : Walk :=
  Walk.units (bindAll ∅ files).2 (bindAll ∅ files).1

/-- Whether files mean the same for the metrics of a project. -/
structure SameMeaning (files files' : List (SourceFile × String)) : Prop where
  declared : (bindAll ∅ files).1.map (fun u => (u.path, u.declared, u.shadowed))
    = (bindAll ∅ files').1.map fun u => (u.path, u.declared, u.shadowed)
  registered : (bindAll ∅ files).2.toList.map Node.id = (bindAll ∅ files').2.toList.map Node.id
  hooks : (walkOf files).seen Visit.flattenedExpr? = (walkOf files').seen Visit.flattenedExpr?
  lines : ((walkOf files).seen Visit.expr?).events.map Event.text
    = ((walkOf files').seen Visit.expr?).events.map Event.text
  faults {κ : Type} [CacheStore κ] (kinds : List AnalyzerKind) (cache cache' : κ)
    : (Analyzer.run (bindAll ∅ files).2 (bindAll ∅ files).1 kinds cache).1.fault
      = (Analyzer.run (bindAll ∅ files').2 (bindAll ∅ files').1 kinds cache').1.fault
  results {κ : Type} [CacheStore κ] (kinds : List AnalyzerKind) (cache cache' : κ)
    (fine : (Analyzer.run (bindAll ∅ files).2 (bindAll ∅ files).1 kinds cache).1.fault = none)
    : (Analyzer.run (bindAll ∅ files).2 (bindAll ∅ files).1 kinds cache).1.observers.map
          (Run.resultOf (bindAll ∅ files).2)
      = (Analyzer.run (bindAll ∅ files').2 (bindAll ∅ files').1 kinds cache').1.observers.map
          (Run.resultOf (bindAll ∅ files').2)

theorem Walk.seen_flattenedExpr? (w : Walk)
    : w.seen Visit.flattenedExpr? = w.flattened.seen Visit.expr? := by
  have each (e : Event) : (e.seen? Visit.flattened?).bind (Event.seen? Visit.expr?)
      = e.seen? Visit.flattenedExpr? := by
    cases e with
    | enter v | leave v =>
      cases v with
      | stmt s => cases kind : s.isIf <;>
          simp [Event.seen?, Visit.flattened?, Visit.isIf, Visit.flattened, kind, Visit.expr?,
            Visit.flattenedExpr?]
      | _ => rfl
  simp only [flattened, seen, List.filterMap_filterMap, each]

/-- What is recorded of an expression does not tell how chains are nested in it. -/
theorem Walk.lines_flattenedExpr? (w : Walk)
    : (w.seen Visit.expr?).events.map Event.text
      = (w.seen Visit.flattenedExpr?).events.map Event.text := by
  have word (e : Expr) : e.flattened.word = e.word := by cases e <;> rfl
  have each (e : Event) : (e.seen? Visit.expr?).map Event.text
      = (e.seen? Visit.flattenedExpr?).map Event.text := by
    cases e with
    | enter v | leave v =>
      cases v with
      | expr e =>
        simp [Event.seen?, Visit.expr?, Visit.flattenedExpr?, Event.text, Visit.text, word]
      | _ => rfl
  simp only [seen, List.map_filterMap, each]

/-- Files that differ in how chains are nested mean the same. -/
theorem SameMeaning.of_flattened {files files' : List (SourceFile × String)}
    (same : files.map (·.1.flattened) = files'.map (·.1.flattened)) : SameMeaning files files' := by
  have start : (∅ : Registry).Reshaped ∅ := ⟨rfl, .empty, .empty⟩
  obtain ⟨reshaped, units⟩ := start.bindAll same
  have walks : (walkOf files).flattened = (walkOf files').flattened :=
    Walk.flattened_units reshaped units
  have runs {κ : Type} [CacheStore κ] (kinds : List AnalyzerKind) (cache cache' : κ) :=
    Analyzer.run_flattened reshaped walks (Walk.uncached_units files _) (Walk.uncached_units files' _)
      kinds cache cache'
  have hooks : (walkOf files).seen Visit.flattenedExpr? = (walkOf files').seen Visit.flattenedExpr? := by
    rw [Walk.seen_flattenedExpr?, Walk.seen_flattenedExpr?, walks]
  refine ⟨?_, reshaped.ids Node.seeing_flattened.id, hooks, ?_,
    fun kinds cache cache' => (runs kinds cache cache').1,
    fun kinds cache cache' => (runs kinds cache cache').2⟩
  · have fields := congrArg (List.map fun u => (u.path, u.declared, u.shadowed)) units
    rw [List.map_map, List.map_map] at fields
    exact fields
  · rw [Walk.lines_flattenedExpr?, Walk.lines_flattenedExpr?, hooks]

def filesWith (hole : NodeId) (fingerprint : SourceFile → String) (contexts : List SourceFile) (s : Stmt)
    : List (SourceFile × String) :=
  contexts.map fun c => (c.plug hole s, fingerprint (c.plug hole s))

theorem Stmt.flattened_flattenIf (s : Stmt) : s.flattenIf.flattened = s.flattened := by
  cases s with
  | ifElse cond body elseIfs otherwise => exact (flattened_ifElse cond body elseIfs otherwise).symm
  | _ => rfl

/-- An `if` whose chain has been joined means the same in every place as with its else branch kept. -/
theorem sameMeaning_of_if (source : Source) (previous : Option CstHead) (tree : Cst)
    (kind : tree.head.kind = "if_statement")
    (single : ∀ c ∈ (tree.children.filter fun c => c.head.field == "alternative").dropLast,
      c.head.kind ≠ "else_clause") (scope : NameScope)
    : ∃ joined nested after,
        (Lowering.view source previous tree).stmts.run scope = ([joined], after)
        ∧ (Lowering.nestedIf (Lowering.view source previous tree).children).run scope = (nested, after)
        ∧ ∀ hole fingerprint contexts,
            SameMeaning (filesWith hole fingerprint contexts joined)
              (filesWith hole fingerprint contexts nested) := by
  rcases lowered : (Lowering.nestedIf (Lowering.view source previous tree).children).run scope
    with ⟨nested, after⟩
  refine ⟨nested.flattenIf, nested, after, ?_, rfl, fun hole fingerprint contexts => ?_⟩
  · rw [Lowering.stmts_view_if source previous kind single]
    rw [StateT.run_map, lowered]
    rfl
  · refine .of_flattened ?_
    simp only [filesWith, List.map_map]
    exact List.map_congr_left fun c _ =>
      SourceFile.rewrite_plug_congr nested.flattened_flattenIf hole c

def elseBlockTree : Cst :=
  let phrase (kind field : String) (start stop : Nat) (children : List Cst) : Cst :=
    .node ⟨kind, true, field, start, stop⟩ children
  let inner : Cst :=
    phrase "if_statement" "" 13 22 [
      phrase "integer" "condition" 17 18 [], phrase "compound_statement" "body" 20 22 []]
  phrase "if_statement" "" 0 24 [
    phrase "integer" "condition" 3 4 [],
    phrase "compound_statement" "body" 5 7 [],
    phrase "else_clause" "alternative" 8 24 [phrase "compound_statement" "body" 12 24 [inner]]]

/-- One statement holds both conditions, or each of two holds one of them. -/
theorem sameMeaning_of_if_elseBlock
    : let source := Source.ofBytes "if (1){} else{if (2) {}}".toUTF8
      let tree := Lowering.view source none elseBlockTree
      ∃ joined nested after, tree.stmts.run {} = ([joined], after)
        ∧ (Lowering.nestedIf tree.children).run {} = (nested, after)
        ∧ joined.decisions = 2 ∧ nested.decisions = 1
        ∧ ∀ hole fingerprint contexts,
            SameMeaning (filesWith hole fingerprint contexts joined)
              (filesWith hole fingerprint contexts nested) := by
  intro source tree
  obtain ⟨joined, nested, after, left, right, same⟩ :=
    sameMeaning_of_if source none elseBlockTree rfl (by decide) {}
  have two : (tree.stmts.run {}).1.map Stmt.decisions = [2] := by decide +kernel
  have one : ((Lowering.nestedIf tree.children).run {}).1.decisions = 1 := by decide +kernel
  rw [left] at two
  rw [right] at one
  exact ⟨joined, nested, after, left, right, by simpa using two, one, same⟩

end DesignMetrics
