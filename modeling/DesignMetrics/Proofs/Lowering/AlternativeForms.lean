import DesignMetrics.Lowering.File
import DesignMetrics.Syntax.Parts
import Mathlib.Data.List.Forall2

/-! Bodies in braces and bodies after a colon.
Where the body of a statement is one node, it does not matter how the node is written, so `while`,
`foreach` and all branches of an `if` are lowered alike in both forms. A `for` that ends with `endfor`
has no such node: each of its statements fills the field of the body, and only the first is found.
-/

namespace DesignMetrics

open Lowering

def blockKinds : List String := ["compound_statement", "colon_block"]

namespace View

/-- Whether a node is punctuation or a keyword, and fills no field. -/
def IsToken (v : View) : Prop := v.isPhrase = false ∧ v.field = ""

def withField (field : String) : View → View
  | mk label doc expr exprs stmts children =>
    mk { label with head := { label.head with field } } doc expr exprs stmts children

/-- The children of a statement or clause with its body in a block of the given kind: a front, the block
around the statements, then clauses and tokens.
-/
inductive HasForm (kind : String) (front body clauses : List View) : List View → Prop
  | mk {block : View} {back : List View} (is : block.kind = kind) (here : block.field = "body")
      (holds : phrases block.children = body)
      (before : ∀ v ∈ front, v.field ≠ "body" ∧ v.field ≠ "alternative")
      (after : ∀ v ∈ clauses, v.field = "alternative") (tokens : ∀ t ∈ back, t.IsToken)
    : HasForm kind front body clauses (front ++ block :: (clauses ++ back))

/-- Whether a node has its body in braces, and another one the same body after a colon. -/
def SameParts (clauses clauses' : List View) (v v' : View) : Prop :=
  v.kind = v'.kind ∧ ∃ front body, HasForm "compound_statement" front body clauses v.children
    ∧ HasForm "colon_block" front body clauses' v'.children

/-- Whether a statement has all its bodies in braces, and another one the same bodies after colons. -/
inductive SameStatement (v v' : View) : Prop
  | loop (kind : v.kind ∈ ["while_statement", "foreach_statement"]) (parts : SameParts [] [] v v')
  | choice (kind : v.kind = "if_statement") {clauses clauses' : List View}
      (each : List.Forall₂ (SameParts [] []) clauses clauses') (parts : SameParts clauses clauses' v v')

/-- Whether a `for` has its body in braces, and another one the same body up to `endfor`. -/
inductive SameFor (body : List View) (v v' : View) : Prop
  | mk {front back : List View} {colon : View} (kind : v.kind = "for_statement")
      (kind' : v'.kind = "for_statement") (closed : ∃ c ∈ front, c.kind = ")")
      (braces : HasForm "compound_statement" front body [] v.children)
      (shape : v'.children = front ++ colon :: (body.map (withField "body") ++ back))
      (tokens : ∀ t ∈ colon :: back, t.IsToken)

end View

open View

-- Loops and choices

theorem inField?_append (left right : List View) (field : String)
    : inField? (left ++ right) field = (inField? left field).or (inField? right field) :=
  List.find?_append ..

theorem inField?_eq_none {views : List View} {field : String} (h : ∀ v ∈ views, v.field ≠ field)
    : inField? views field = none := by
  simpa [inField?] using h

namespace View.HasForm

variable {kind : String} {front body clauses children : List View}
variable (h : HasForm kind front body clauses children)

include h

theorem exists_block
    : ∃ block rest, children = front ++ block :: rest ∧ phrases block.children = body := by
  cases h with
  | mk is here holds before after tokens => exact ⟨_, _, rfl, holds⟩

theorem inField?_body : inField? front "body" = none := by
  cases h with
  | mk is here holds before after tokens => exact inField?_eq_none fun v member => (before v member).1

theorem condition_eq : condition children = condition front := by
  cases h with
  | @mk block back is here holds before after tokens =>
    have nowhere : inField? (block :: (clauses ++ back)) "condition" = none :=
      inField?_eq_none (by grind [IsToken])
    rw [condition, inField?_append, nowhere, Option.or_none, condition]

/-- The body does not depend on the kind of the block around it. -/
theorem bodyOf_eq (known : kind ∈ blockKinds) : bodyOf children "body" = stmtsOf body := by
  have nowhere := h.inField?_body
  cases h with
  | @mk block back is here holds before after tokens =>
    have found : inField? (block :: (clauses ++ back)) "body" = some block :=
      List.find?_cons_of_pos (by simp [here])
    have around : block.isOneOf blockKinds := List.contains_iff_mem.mpr (is ▸ known)
    rw [bodyOf, inField?_append, nowhere, found]
    exact (if_pos around).trans (congrArg stmtsOf holds)

theorem alternatives_eq : children.filter (fun v => v.field == "alternative") = clauses := by
  cases h with
  | @mk block back is here holds before after tokens =>
    rw [List.filter_append, List.filter_eq_nil_iff.mpr (by grind), List.nil_append,
      List.filter_cons_of_neg (by simp [here]), List.filter_append, List.filter_eq_self.mpr (by grind),
      List.filter_eq_nil_iff.mpr (by grind [IsToken]), List.append_nil]

theorem phrases_eq : phrases (withoutField children "body") = phrases (front ++ clauses) := by
  cases h with
  | @mk block back is here holds before after tokens =>
    have unnamed : phrases back = [] := List.filter_eq_nil_iff.mpr (by grind [IsToken])
    rw [withoutField, List.eraseP_append_right _ (by grind), List.eraseP_cons_of_pos (by simp [here]),
      ← List.append_assoc, phrases, List.filter_append, ← phrases, ← phrases, unnamed, List.append_nil]

end View.HasForm

/-- Clauses are lowered alike in both forms. -/
theorem branches_eq {clauses clauses' : List View}
    (h : List.Forall₂ (SameParts [] []) clauses clauses') (b : Branches)
    : branches b clauses = branches b clauses' := by
  induction h generalizing b with
  | nil => rfl
  | @cons v v' rest rest' same _ ih =>
    obtain ⟨kinds, front, body, braces, colon⟩ := same
    simp only [branches, kinds, braces.condition_eq, colon.condition_eq, braces.bodyOf_eq (by decide),
      colon.bodyOf_eq (by decide), ih]

/-- A tree is lowered by the kind of its root and the views of its children. -/
theorem stmts_view (source : Source) (previous : Option CstHead) (tree : Cst)
    : (view source previous tree).stmts
      = statements (view source previous tree).label (view source previous tree).doc
          (view source previous tree).children := by
  cases tree
  rfl

variable {source source' : Source} {previous previous' : Option CstHead} {tree tree' : Cst}

/-- A loop or a choice is lowered alike in both forms. -/
theorem View.SameStatement.stmts_eq
    (h : SameStatement (view source previous tree) (view source' previous' tree'))
    : (view source' previous' tree').stmts = (view source previous tree).stmts := by
  rw [stmts_view, stmts_view]
  cases h with
  | loop kind parts =>
    obtain ⟨kinds, front, body, braces, colon⟩ := parts
    simp only [View.kind] at kind kinds
    rcases List.mem_pair.mp kind with kind | kind
    · simp only [statements, ← kinds, kind, braces.condition_eq, colon.condition_eq,
        braces.bodyOf_eq (by decide), colon.bodyOf_eq (by decide)]
    · simp only [statements, ← kinds, kind, forEachStmt, braces.phrases_eq, colon.phrases_eq,
        braces.bodyOf_eq (by decide), colon.bodyOf_eq (by decide)]
  | choice kind each parts =>
    obtain ⟨kinds, front, body, braces, colon⟩ := parts
    simp only [View.kind] at kind kinds
    simp only [statements, ← kinds, kind, ifStmt, braces.condition_eq, colon.condition_eq,
      braces.bodyOf_eq (by decide), colon.bodyOf_eq (by decide), braces.alternatives_eq,
      colon.alternatives_eq, branches_eq each]

-- The body of a `for`

/-- What is taken from a list is known once an element is not. -/
theorem takeWhile_append_of_stop {α : Type} {p : α → Bool} {front : List α} (rest : List α)
    (stop : ∃ a ∈ front, p a = false) : (front ++ rest).takeWhile p = front.takeWhile p := by
  induction front with
  | nil => simp at stop
  | cons a front ih =>
    rw [List.cons_append, List.takeWhile_cons, List.takeWhile_cons]
    split
    · rename_i taken
      rw [ih (by simpa [taken] using stop)]
    · rfl

/-- The head of a `for` is lowered before its body. -/
theorem run_forStmt_eq_iff {front : List View} (stop : ∃ v ∈ front, v.kind = ")") (rest rest' : List View)
    (scope : NameScope)
    : let loop (views : List View) : Lower (List Stmt) := do return [← forStmt (front ++ views)]
      ∃ inside, ((loop rest').run scope).2 = ((bodyOf (front ++ rest') "body").run inside).2
      ∧ ((loop rest').run scope = (loop rest).run scope
        ↔ (bodyOf (front ++ rest') "body").run inside = (bodyOf (front ++ rest) "body").run inside) := by
  intro loop
  have stop : ∃ v ∈ front, (v.field != "body" && v.kind != ")") = false := by
    obtain ⟨v, member, kind⟩ := stop
    exact ⟨v, member, by simp [kind]⟩
  let head := (forHead {} 0 (front.takeWhile fun v => v.field != "body" && v.kind != ")")).run scope
  have run (views : List View)
      : (loop views).run scope
        = ([.forLoop head.1.init head.1.cond head.1.step ((bodyOf (front ++ views) "body").run head.2).1],
          ((bodyOf (front ++ views) "body").run head.2).2) := by
    simp only [loop, forStmt, takeWhile_append_of_stop views stop]
    rfl
  refine ⟨head.2, by rw [run], ?_⟩
  rw [run, run, Prod.ext_iff, Prod.ext_iff]
  simp

/-- The first statement of a body alone is all of it if it is no block and nothing comes after it. -/
theorem run_blockOf_eq_iff (source : Source) (previous : Option CstHead) (tree : Cst) (later : List View)
    (scope : NameScope)
    : let v := view source previous tree
      (blockOf v).run scope = (stmtsOf (v :: later)).run scope
      ↔ v.kind ∉ blockKinds
        ∧ (stmtsOf later).run ((blockOf v).run scope).2 = ([], ((blockOf v).run scope).2) := by
  intro v
  have run : (stmtsOf (v :: later)).run scope
      = ((v.stmts.run scope).1 ++ ((stmtsOf later).run (v.stmts.run scope).2).1,
        ((stmtsOf later).run (v.stmts.run scope).2).2) := rfl
  rw [run]
  by_cases block : v.kind ∈ blockKinds
  · -- A block in the body is a statement of its own, but the first one alone is taken apart.
    have first : (v.stmts.run scope).1 = [.block ((blockOf v).run scope).1] := by
      have inside : blockOf v = stmtsOf (phrases v.children) := if_pos (List.contains_iff_mem.mpr block)
      rw [inside, stmts_view]
      rcases List.mem_pair.mp block with kind | kind <;>
      · change (view source previous tree).label.head.kind = _ at kind
        simp only [statements, kind]
        rfl
    refine iff_of_false (fun same => ?_) fun h => h.1 block
    have sizes := congrArg (fun r => sizeOf r.1) same
    simp [first] at sizes
    omega
  · have alone : blockOf v = v.stmts := if_neg (mt List.contains_iff_mem.mp block)
    rw [alone, Prod.ext_iff, Prod.ext_iff]
    exact ⟨fun ⟨lists, scopes⟩ => ⟨block, by simpa using lists, scopes.symm⟩,
      fun ⟨_, lists, scopes⟩ => ⟨by simpa using lists, scopes.symm⟩⟩

theorem exists_of_mem_views {v : View} {trees : List Cst} (h : v ∈ views source previous trees)
    : ∃ previous' tree, v = view source previous' tree := by
  induction trees generalizing previous with
  | nil => cases h
  | cons c rest ih =>
    rcases List.mem_cons.mp h with rfl | later
    · exact ⟨previous, c, rfl⟩
    · exact ih later

/-- The children of the view of a tree are views of trees. -/
theorem exists_of_mem_children {v : View} (h : v ∈ (view source previous tree).children)
    : ∃ previous' tree', v = view source previous' tree' := by
  cases tree
  exact exists_of_mem_views h

/-- Of the statements before `endfor` the first is taken for the body. -/
theorem bodyOf_endfor {front back : List View} {colon : View} (nowhere : inField? front "body" = none)
    (tokens : ∀ t ∈ colon :: back, t.IsToken) (body : List View)
    : bodyOf (front ++ colon :: (body.map (withField "body") ++ back)) "body"
      = (body.head?.map blockOf).getD (pure []) := by
  have unfilled : ∀ t ∈ colon :: back, t.field ≠ "body" := by grind [IsToken]
  rw [bodyOf, inField?_append, nowhere, Option.none_or, inField?,
    List.find?_cons_of_neg (by simpa using (List.forall_mem_cons.mp unfilled).1), ← inField?, inField?_append,
    inField?_eq_none (List.forall_mem_cons.mp unfilled).2, Option.or_none]
  rcases body with _ | ⟨⟨⟩, rest⟩ <;> rfl

/-- A `for` with `endfor` keeps its first statement only. -/
theorem View.SameFor.run_eq_iff {body : List View}
    (h : SameFor body (view source previous tree) (view source' previous' tree')) (scope : NameScope)
    : let lowered := (view source' previous' tree').stmts.run scope
      lowered = (view source previous tree).stmts.run scope
      ↔ ∀ s rest, body = s :: rest
        → s.kind ∉ blockKinds ∧ (stmtsOf rest).run lowered.2 = ([], lowered.2) := by
  cases h with
  | @mk front back colon kind kind' closed braces shape tokens =>
    have opened {source : Source} {previous : Option CstHead} {tree : Cst}
        (kind : (view source previous tree).kind = "for_statement")
        : (view source previous tree).stmts = do
            return [← forStmt (view source previous tree).children] := by
      simp only [View.kind] at kind
      simp only [stmts_view, statements, kind]
    have first := bodyOf_endfor braces.inField?_body tokens body
    have whole := braces.bodyOf_eq (by decide)
    obtain ⟨block, rest, start, holds⟩ := braces.exists_block
    obtain ⟨inside, after, same⟩ := run_forStmt_eq_iff closed (block :: rest)
      (colon :: (body.map (withField "body") ++ back)) scope
    rw [opened kind, opened kind', start, shape]
    intro lowered
    rw [same, after, first, ← start, whole]
    cases body with
    | nil => exact iff_of_true rfl nofun
    | cons s later =>
      have outer : block ∈ (view source previous tree).children := by simp [start]
      obtain ⟨_, _, rfl⟩ := exists_of_mem_children outer
      obtain ⟨_, _, rfl⟩ := exists_of_mem_children (List.mem_of_mem_filter (holds ▸ List.mem_cons_self))
      simpa using run_blockOf_eq_iff source _ _ later inside

/-- Bodies in braces and after a colon are lowered alike, except in a `for`: with `endfor` it lowers to
the same as with braces if it has no statements, or if its first one is no block and all later ones lower
to nothing.
-/
theorem alternative_form_lowers_alike (source source' : Source) (previous previous' : Option CstHead)
    (tree tree' : Cst)
    : (SameStatement (view source previous tree) (view source' previous' tree')
        → (view source' previous' tree').stmts = (view source previous tree).stmts)
      ∧ ∀ body, SameFor body (view source previous tree) (view source' previous' tree') → ∀ scope,
        let lowered := (view source' previous' tree').stmts.run scope
        lowered = (view source previous tree).stmts.run scope
        ↔ ∀ s rest, body = s :: rest
          → s.kind ∉ blockKinds ∧ (stmtsOf rest).run lowered.2 = ([], lowered.2) :=
  ⟨fun same => same.stmts_eq, fun _ same => same.run_eq_iff⟩

def callTree (field : String) (start : Nat) : Cst :=
  .node ⟨"expression_statement", true, field, start, start + 4⟩ [
    .node ⟨"function_call_expression", true, "", start, start + 3⟩ [
      .node ⟨"name", true, "function", start, start + 1⟩ [],
      .node ⟨"arguments", true, "arguments", start + 1, start + 3⟩ []]]

def blockTree (kind : String) (start : Nat) : Cst :=
  .node ⟨kind, true, "body", start, start + 8⟩ [callTree "" (start + 2)]

def ifTree (kind : String) (ends : List Cst) : Cst :=
  .node ⟨"if_statement", true, "", 0, 29⟩ (.node ⟨"integer", true, "condition", 4, 5⟩ [] :: blockTree kind 7
    :: .node ⟨"else_clause", true, "alternative", 16, 27⟩ [blockTree kind 21] :: ends)

/-- An `if` is the same with `endif`, as long as it has the same conditions and branches. -/
theorem alternative_form_lowers_alike_if
    : let source := Source.ofBytes "if (1) : f();   else : g(); endif;".toUTF8
      let ends : Cst := .node ⟨"endif", false, "", 28, 33⟩ []
      (view source none (ifTree "colon_block" [ends])).stmts
      = (view source none (ifTree "compound_statement" [])).stmts := by
  intro source ends
  refine (alternative_form_lowers_alike source source none none _ _).1 ?_
  let clause (kind : String) : View := view source (some (blockTree kind 7).head)
    (.node ⟨"else_clause", true, "alternative", 16, 27⟩ [blockTree kind 21])
  have form (kind : String) {front clauses back : List View} (p : Option CstHead) (start : Nat)
      (before : ∀ v ∈ front, v.field ≠ "body" ∧ v.field ≠ "alternative")
      (after : ∀ v ∈ clauses, v.field = "alternative") (tokens : ∀ t ∈ back, t.IsToken)
      : HasForm kind front [view source none (callTree "" (start + 2))] clauses
        (front ++ view source p (blockTree kind start) :: (clauses ++ back)) :=
    .mk rfl rfl (List.filter_cons_of_pos rfl) before after tokens
  have front : ∀ v ∈ [view source none (.node ⟨"integer", true, "condition", 4, 5⟩ [])],
      v.field ≠ "body" ∧ v.field ≠ "alternative" := List.forall_mem_singleton.mpr (by decide +kernel)
  have after (kind : String) : ∀ v ∈ [clause kind], v.field = "alternative" :=
    List.forall_mem_singleton.mpr rfl
  have clauses : SameParts [] [] (clause "compound_statement") (clause "colon_block") :=
    ⟨rfl, [], _, form _ none 21 nofun nofun nofun, form _ none 21 nofun nofun nofun⟩
  exact .choice rfl (.cons clauses .nil) ⟨rfl, _, _, form _ _ 7 front (after _) nofun,
    form _ _ 7 front (after _) (List.forall_mem_singleton.mpr ⟨rfl, rfl⟩)⟩

def forTree (rest : List Cst) : Cst :=
  .node ⟨"for_statement", true, "", 0, 27⟩ (.node ⟨")", false, "", 7, 8⟩ [] :: rest)

/-- Of two calls before `endfor` the second is lost. -/
theorem endfor_drops_call
    : let source := Source.ofBytes "for (;;): f(); g(); endfor;".toUTF8
      let braces := forTree [.node ⟨"compound_statement", true, "body", 8, 19⟩ [callTree "" 10, callTree "" 15]]
      let colon := forTree [.node ⟨":", false, "", 8, 9⟩ [], callTree "body" 10, callTree "body" 15]
      ((view source none braces).stmts.run {}).1.map (·.parts.length) = [2]
      ∧ ((view source none colon).stmts.run {}).1.map (·.parts.length) = [1] := by
  decide +kernel

end DesignMetrics
