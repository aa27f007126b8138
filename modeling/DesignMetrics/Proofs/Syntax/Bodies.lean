import Mathlib.Algebra.GroupWithZero.Nat
import DesignMetrics.Syntax.Parts

/-! Statements as containers of statement lists.
Declarations are only looked for in statement lists that stand directly in other statements. Such a
statement is given by its bodies and the rest of it, so the bodies can be replaced, and expressions stay
as they are.
-/

namespace DesignMetrics

theorem eq_map_of_cons {α β : Type} {f : α → β} {all : List α → List β} (nil : all [] = [])
    (cons : ∀ a rest, all (a :: rest) = f a :: all rest) (items : List α) : all items = items.map f := by
  induction items with
  | nil => exact nil
  | cons a rest ih => rw [cons, ih, List.map_cons]

namespace Part

def isStmt : Part → Bool
  | stmt _ => true
  | expr _ => false

def isExpr : Part → Bool
  | stmt _ => false
  | expr _ => true

/-- A part and all that stands in it, in the order of the source. -/
def within (p : Part) : List Part :=
  p :: p.children.attach.flatMap fun ⟨q, _⟩ => within q
termination_by sizeOf p
decreasing_by exact sizeOf_lt_of_mem_children (by assumption)

theorem within_eq (p : Part) : p.within = p :: p.children.flatMap within := by
  rw [within]
  simp [List.flatMap_subtype]

/-- The identifier that a marker holds. -/
def marker? : Part → Option NodeId
  | stmt (.declared id) => some id
  | _ => none

def markers (p : Part) : List NodeId := p.within.filterMap marker?

theorem markers_eq (p : Part) : p.markers = p.marker?.toList ++ p.children.flatMap markers := by
  unfold markers
  rw [within_eq, List.filterMap_cons, List.filterMap_flatMap]
  cases p.marker? <;> rfl

end Part

def markersIn (body : List Stmt) : List NodeId := body.flatMap fun s => (Part.stmt s).markers

@[simp] theorem markersIn_nil : markersIn [] = [] := rfl

@[simp] theorem markersIn_append (body more : List Stmt)
    : markersIn (body ++ more) = markersIn body ++ markersIn more := List.flatMap_append

theorem markersIn_flatten (bodies : List (List Stmt))
    : markersIn bodies.flatten = bodies.flatMap markersIn := by
  induction bodies with
  | nil => rfl
  | cons body bodies ih => rw [List.flatten_cons, markersIn_append, ih, List.flatMap_cons]

def ElseIf.withBody (e : ElseIf) (body : List Stmt) : ElseIf := { e with body }

def Case.withBody (c : Case) (body : List Stmt) : Case := { c with body }

def Catch.withBody (c : Catch) (body : List Stmt) : Catch := { c with body }

namespace Stmt

def bodies : Stmt → List (List Stmt)
  | .inNamespace decl => [decl.body]
  | .ifElse _ body elseIfs otherwise => body :: (elseIfs.map ElseIf.body ++ otherwise.toList)
  | .whileLoop _ body | .doWhile body _ | .forLoop _ _ _ body | .forEach _ _ _ body
  | .block body => [body]
  | .switch _ cases => cases.map Case.body
  | .tryCatch body catches cleanup => body :: (catches.map Catch.body ++ cleanup.toList)
  | _ => []

def rebuild : Stmt → List (List Stmt) → Stmt
  | .inNamespace decl, body :: _ => .inNamespace { decl with body }
  | .ifElse cond _ elseIfs _, body :: rest =>
    .ifElse cond body (elseIfs.zipWith ElseIf.withBody rest) (rest.drop elseIfs.length).head?
  | .whileLoop cond _, body :: _ => .whileLoop cond body
  | .doWhile _ cond, body :: _ => .doWhile body cond
  | .forLoop init cond step _, body :: _ => .forLoop init cond step body
  | .forEach subject key value _, body :: _ => .forEach subject key value body
  | .block _, body :: _ => .block body
  | .switch subject cases, bodies => .switch subject (cases.zipWith Case.withBody bodies)
  | .tryCatch _ catches _, body :: rest =>
    .tryCatch body (catches.zipWith Catch.withBody rest) (rest.drop catches.length).head?
  | s, _ => s

end Stmt

section Alternatives

variable {α : Type} {items : List α} {rest : List (List Stmt)} {last : Option (List Stmt)}
variable {body : α → List Stmt} {put : α → List Stmt → α}

/-- Bodies dealt out to alternatives and a last resort can be collected again. -/
theorem zipWith_bodies (body_put : ∀ a b, body (put a b) = b)
    (h : rest.length = items.length + last.toList.length)
    : (items.zipWith put rest).map body ++ (rest.drop items.length).head?.toList = rest := by
  induction items generalizing rest with
  | nil =>
    cases rest with
    | nil => rfl
    | cons b rest =>
      have short : rest = [] := by
        cases last <;> simp at h
        exact h
      simp [short]
  | cons a items ih =>
    cases rest with
    | nil => simp at h; omega
    | cons b rest =>
      have less : rest.length = items.length + last.toList.length := by simp at h; omega
      simpa [body_put] using ih less

/-- Dealing out as many bodies as there are alternatives keeps everything else of them. -/
theorem zipWith_rest {β : Type} (other : α → β) (other_put : ∀ a b, other (put a b) = other a)
    (h : items.length ≤ rest.length) : (items.zipWith put rest).map other = items.map other := by
  induction items generalizing rest with
  | nil => simp
  | cons a items ih =>
    cases rest with
    | nil => simp at h
    | cons b rest => simp [other_put, ih (Nat.le_of_succ_le_succ (by simpa using h))]

end Alternatives

variable {new : List (List Stmt)} {s : Stmt}

namespace Stmt

/-- New bodies are the bodies of what is built from them. -/
theorem bodies_rebuild (h : new.length = s.bodies.length) : (s.rebuild new).bodies = new := by
  cases s with
  | ifElse _ body items last | tryCatch body items last =>
    cases new with
    | nil => simp [bodies] at h
    | cons b rest =>
      have lengths : rest.length = items.length + last.toList.length := by
        simpa [bodies] using h
      simp only [bodies, rebuild]
      rw [zipWith_bodies (fun _ _ => rfl) lengths]
  | switch subject cases =>
    have lengths : new.length = cases.length + (none : Option (List Stmt)).toList.length := by
      simpa [bodies] using h
    have collected : (cases.zipWith Case.withBody new).map Case.body
        ++ (new.drop cases.length).head?.toList = new := zipWith_bodies (fun _ _ => rfl) lengths
    simpa [bodies, rebuild, lengths] using collected
  | inNamespace | whileLoop | doWhile | forLoop | forEach | block =>
    obtain ⟨b, rfl⟩ := List.length_eq_one_iff.mp (by simpa [bodies] using h)
    rfl
  | _ =>
    have empty : new = [] := List.eq_nil_of_length_eq_zero (by simpa [bodies] using h)
    subst empty
    rfl

def exprs (s : Stmt) : List Part := s.parts.filter Part.isExpr

end Stmt

@[simp] theorem Part.filter_isStmt_stmts (body : List Stmt)
    : (Part.stmts body).filter Part.isStmt = Part.stmts body := by
  simp [Part.stmts, Part.isStmt]

@[simp] theorem Part.filter_isStmt_exprs (values : List Expr)
    : (Part.exprs values).filter Part.isStmt = [] := by
  simp [Part.exprs, Part.isStmt]

@[simp] theorem Part.filter_isExpr_stmts (body : List Stmt)
    : (Part.stmts body).filter Part.isExpr = [] := by
  simp [Part.stmts, Part.isExpr]

@[simp] theorem Part.filter_isExpr_exprs (values : List Expr)
    : (Part.exprs values).filter Part.isExpr = Part.exprs values := by
  simp [Part.exprs, Part.isExpr]

@[simp] theorem Part.stmts_nil : Part.stmts [] = [] := rfl

@[simp] theorem Part.stmts_append (body more : List Stmt)
    : Part.stmts (body ++ more) = Part.stmts body ++ Part.stmts more := List.map_append

namespace Stmt

/-- The statements that stand directly in a statement are those of its bodies. -/
theorem filter_parts (s : Stmt) : s.parts.filter Part.isStmt = Part.stmts s.bodies.flatten := by
  have alternatives {α : Type} (items : List α) (parts : α → List Part) (body : α → List Stmt)
      (each : ∀ a, (parts a).filter Part.isStmt = Part.stmts (body a))
      : (items.flatMap parts).filter Part.isStmt = Part.stmts (items.map body).flatten := by
    induction items with
    | nil => rfl
    | cons a items ih => simp [each, ih]
  cases s with
  | ifElse cond body elseIfs otherwise =>
    have each := alternatives elseIfs ElseIf.parts ElseIf.body
      (fun e => by simp [ElseIf.parts, Part.isStmt])
    cases otherwise <;> simp [parts, bodies, Part.isStmt, each]
  | switch subject cases =>
    have each := alternatives cases Case.parts Case.body (fun c => by simp [Case.parts])
    simp [parts, bodies, Part.isStmt, each]
  | tryCatch body catches cleanup =>
    have each := alternatives catches Catch.parts Catch.body (fun c => by simp [Catch.parts])
    cases cleanup <;> simp [parts, bodies, each]
  | _ => simp [parts, bodies, Part.isStmt]

/-- New bodies leave the expressions as they are. -/
theorem exprs_rebuild (h : new.length = s.bodies.length) : (s.rebuild new).exprs = s.exprs := by
  have alternatives {α : Type} {items : List α} {rest : List (List Stmt)} (parts : α → List Part)
      (put : α → List Stmt → α) (enough : items.length ≤ rest.length)
      (same : ∀ a b, (parts (put a b)).filter Part.isExpr
        = (parts a).filter Part.isExpr)
      : ((items.zipWith put rest).flatMap parts).filter Part.isExpr
        = (items.flatMap parts).filter Part.isExpr := by
    have kept := zipWith_rest (fun a => (parts a).filter Part.isExpr) same enough
    rw [List.filter_flatMap, List.filter_flatMap, List.flatMap_def, List.flatMap_def]
    exact congrArg List.flatten kept
  cases s with
  | ifElse cond body elseIfs otherwise =>
    cases new with
    | nil => simp [bodies] at h
    | cons b rest =>
      have enough : elseIfs.length ≤ rest.length := by simp [bodies] at h; omega
      have kept := alternatives ElseIf.parts ElseIf.withBody enough
        (fun e b => by simp [ElseIf.parts, ElseIf.withBody, List.filter_cons, Part.isExpr])
      simp [exprs, parts, rebuild, List.filter_cons, Part.isExpr, kept]
  | tryCatch body catches cleanup =>
    cases new with
    | nil => simp [bodies] at h
    | cons b rest =>
      have enough : catches.length ≤ rest.length := by simp [bodies] at h; omega
      have kept := alternatives Catch.parts Catch.withBody enough
        (fun c b => by simp [Catch.parts])
      simp [exprs, parts, rebuild, kept]
  | switch subject cases =>
    have enough : cases.length ≤ new.length := by simp [bodies] at h; omega
    have kept := alternatives Case.parts Case.withBody enough
      (fun c b => by simp [Case.parts, Case.withBody])
    simp [exprs, parts, rebuild, List.filter_cons, Part.isExpr, kept]
  | inNamespace | whileLoop | doWhile | forLoop | forEach | block =>
    obtain ⟨b, rfl⟩ := List.length_eq_one_iff.mp (by simpa [bodies] using h)
    simp [exprs, parts, rebuild, List.filter_cons, Part.isExpr]
  | _ => rfl

theorem sizeOf_bodies_cons (body : List Stmt) (rest : List (List Stmt))
    : sizeOf body ≤ ((body :: rest).map sizeOf).sum
      ∧ (rest.map sizeOf).sum < ((body :: rest).map sizeOf).sum := by
  have some : 0 < sizeOf body := by
    cases body with
    | nil => exact Nat.zero_lt_one
    | cons s rest =>
      rw [List.cons.sizeOf_spec]
      omega
  rw [List.map_cons, List.sum_cons]
  omega

/-- All bodies together are smaller than the statement that they stand in. -/
theorem sizeOf_bodies_lt (s : Stmt) : (s.bodies.map sizeOf).sum < sizeOf s := by
  have collected {α : Type} [SizeOf α] (body : α → List Stmt) (items : List α)
      (smaller : ∀ a, sizeOf (body a) ≤ sizeOf a) (last : Option (List Stmt))
      : ((items.map body ++ last.toList).map sizeOf).sum < sizeOf items + sizeOf last := by
    induction items with
    | nil =>
      cases last with
      | none => simp
      | some body =>
        simp
        omega
    | cons a items ih =>
      have head := smaller a
      simp at ih ⊢
      omega
  cases s with
  | ifElse cond body elseIfs otherwise =>
    have rest := collected ElseIf.body elseIfs (fun e => by cases e; simp) otherwise
    simp [bodies] at rest ⊢
    omega
  | tryCatch body catches cleanup =>
    have rest := collected Catch.body catches (fun c => by cases c; simp) cleanup
    simp [bodies] at rest ⊢
    omega
  | switch subject cases =>
    have rest := collected Case.body cases (fun c => by cases c; simp) none
    simp [bodies] at rest ⊢
    omega
  | inNamespace decl =>
    cases decl
    simp [bodies]
    omega
  | _ => simp [bodies] <;> omega

/-- Without markers in its expressions, a statement has those of its bodies and its own. -/
theorem markers_of_exprs (plain : ∀ p ∈ s.exprs, p.markers = [])
    : (Part.stmt s).markers = (Part.stmt s).marker?.toList ++ markersIn s.bodies.flatten := by
  have only (l : List Part) (other : ∀ p ∈ l.filter Part.isExpr, p.markers = [])
      : l.flatMap Part.markers = (l.filter Part.isStmt).flatMap Part.markers := by
    induction l with
    | nil => rfl
    | cons p l ih =>
      cases p with
      | stmt s =>
        simp only [List.flatMap_cons, List.filter_cons, Part.isStmt, if_true]
        rw [ih (fun q member => other q (by simpa [List.filter_cons, Part.isExpr] using member))]
      | expr e =>
        have none : (Part.expr e).markers = [] := other _ (by simp [Part.isExpr])
        simp only [List.flatMap_cons, none, List.filter_cons, Part.isStmt, List.nil_append]
        exact ih (fun q member => other q (by simp_all [List.filter_cons, Part.isExpr]))
  have children : (Part.stmt s).children = s.parts := rfl
  rw [Part.markers_eq, children, only s.parts plain, filter_parts, Part.stmts, List.flatMap_map]
  rfl

/-- A statement without markers has none in its expressions and none in its bodies. -/
theorem exprs_of_markers_eq_nil (h : (Part.stmt s).markers = []) : ∀ p ∈ s.exprs, p.markers = [] := by
  intro p member
  rw [Part.markers_eq, List.append_eq_nil_iff, List.flatMap_eq_nil_iff] at h
  exact h.2 p (List.mem_filter.mp member).1

/-- The markers in new bodies are all that there are in a statement that had none before. -/
theorem markers_rebuild (h : new.length = s.bodies.length) (plain : (Part.stmt s).markers = [])
    : (Part.stmt (s.rebuild new)).markers = markersIn new.flatten := by
  have bare : (Part.stmt (s.rebuild new)).marker? = none := by
    have own : (Part.stmt s).marker? = none := by
      rw [Part.markers_eq, List.append_eq_nil_iff] at plain
      simpa using plain.1
    unfold rebuild
    split <;> first | rfl | exact own
  rw [markers_of_exprs, bodies_rebuild h, bare]
  · rfl
  · rw [exprs_rebuild h]
    exact exprs_of_markers_eq_nil plain

end Stmt

end DesignMetrics
