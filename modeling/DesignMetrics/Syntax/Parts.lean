import DesignMetrics.Syntax.Basic

/-!
Statements and expressions as trees of parts.
-/

namespace DesignMetrics

/-- A statement or an expression. -/
inductive Part where
  | stmt (value : Stmt)
  | expr (value : Expr)

namespace Part

def stmts (body : List Stmt) : List Part := body.map stmt

def exprs (values : List Expr) : List Part := values.map expr

end Part

def ClassRef.parts : ClassRef → List Part
  | .type _ => []
  | .dynamic value => [.expr value]

def MemberName.parts : MemberName → List Part
  | .ident _ => []
  | .dynamic value => [.expr value]

def ElseIf.parts (e : ElseIf) : List Part := .expr e.cond :: Part.stmts e.body

def Case.parts (c : Case) : List Part := Part.exprs c.test.toList ++ Part.stmts c.body

def Catch.parts (c : Catch) : List Part := Part.stmts c.body

def Param.parts (p : Param) : List Part := Part.exprs p.default.toList

def Expr.parts : Expr → List Part
  | .literal _ | .var _ | .name _ => []
  | .array items | .other items => Part.exprs items
  | .propertyFetch object property => .expr object :: property.parts
  | .staticPropertyFetch owner _ | .classConstFetch owner _ => owner.parts
  | .funcCall callee args => .expr callee :: Part.exprs args
  | .methodCall object method args => .expr object :: (method.parts ++ Part.exprs args)
  | .staticCall owner method args => owner.parts ++ (method.parts ++ Part.exprs args)
  | .newObject owner args => owner.parts ++ Part.exprs args
  | .instanceOf value owner => .expr value :: owner.parts
  | .closure params _ _ body => params.flatMap Param.parts ++ Part.stmts body
  | .ternary cond chosen otherwise =>
    .expr cond :: (Part.exprs chosen.toList ++ [.expr otherwise])
  | .binary _ _ left right => [.expr left, .expr right]
  | .unary _ operand => [.expr operand]
  | .assign target _ value => [.expr target, .expr value]

/-- Declarations have no parts: what is declared belongs to its own node. -/
def Stmt.parts : Stmt → List Part
  | .inNamespace decl => Part.stmts decl.body
  | .classDecl _ | .interfaceDecl _ | .functionDecl _ | .declared _ => []
  | .expr value | .throw value => [.expr value]
  | .ret value => Part.exprs value.toList
  | .echo values | .other values => Part.exprs values
  | .ifElse cond body elseIfs otherwise =>
    .expr cond
      :: (Part.stmts body ++ (elseIfs.flatMap ElseIf.parts ++ Part.stmts (otherwise.getD [])))
  | .whileLoop cond body => .expr cond :: Part.stmts body
  | .doWhile body cond => Part.stmts body ++ [.expr cond]
  | .forLoop init cond step body =>
    Part.exprs init ++ (Part.exprs cond ++ (Part.exprs step ++ Part.stmts body))
  | .forEach subject key value body =>
    .expr subject :: (Part.exprs key.toList ++ (Part.exprs value.toList ++ Part.stmts body))
  | .switch subject cases => .expr subject :: cases.flatMap Case.parts
  | .tryCatch body catches cleanup =>
    Part.stmts body ++ (catches.flatMap Catch.parts ++ Part.stmts (cleanup.getD []))
  | .block body => Part.stmts body

namespace Part

/-- The children of a part are the statements and expressions that stand directly in it, in the
order of the source. -/
def children : Part → List Part
  | stmt s => s.parts
  | expr e => e.parts

theorem sizeOf_lt_of_mem_stmts {p : Part} {body : List Stmt} (h : p ∈ stmts body)
    : sizeOf p < 1 + sizeOf body := by
  obtain ⟨s, member, rfl⟩ := List.mem_map.mp h
  have less := List.sizeOf_lt_of_mem member
  simp
  omega

theorem sizeOf_lt_of_mem_exprs {p : Part} {values : List Expr} (h : p ∈ exprs values)
    : sizeOf p < 1 + sizeOf values := by
  obtain ⟨e, member, rfl⟩ := List.mem_map.mp h
  have less := List.sizeOf_lt_of_mem member
  simp
  omega

theorem sizeOf_lt_of_mem_option {p : Part} {value : Option Expr} (h : p ∈ exprs value.toList)
    : sizeOf p < 1 + sizeOf value := by
  cases value with
  | none => simp [exprs] at h
  | some e =>
    simp [exprs] at h
    subst h
    simp

theorem sizeOf_lt_of_mem_body {p : Part} {body : Option (List Stmt)} (h : p ∈ stmts (body.getD []))
    : sizeOf p < 1 + sizeOf body := by
  cases body with
  | none => simp [stmts] at h
  | some body =>
    have less : sizeOf p < 1 + sizeOf body := sizeOf_lt_of_mem_stmts h
    simp
    omega

theorem sizeOf_lt_of_mem_classRef {p : Part} {c : ClassRef} (h : p ∈ c.parts)
    : sizeOf p < 1 + sizeOf c := by
  cases c <;> simp [ClassRef.parts] at h
  subst h
  simp

theorem sizeOf_lt_of_mem_memberName {p : Part} {m : MemberName} (h : p ∈ m.parts)
    : sizeOf p < 1 + sizeOf m := by
  cases m <;> simp [MemberName.parts] at h
  subst h
  simp

theorem sizeOf_lt_of_mem_params {p : Part} {params : List Param} (h : p ∈ params.flatMap Param.parts)
    : sizeOf p < 1 + sizeOf params := by
  obtain ⟨param, member, inside⟩ := List.mem_flatMap.mp h
  have outer := List.sizeOf_lt_of_mem member
  have inner := sizeOf_lt_of_mem_option inside
  have field : sizeOf param.default < sizeOf param := by cases param; simp; omega
  omega

theorem sizeOf_lt_of_mem_elseIfs {p : Part} {elseIfs : List ElseIf}
    (h : p ∈ elseIfs.flatMap ElseIf.parts) : sizeOf p < 1 + sizeOf elseIfs := by
  obtain ⟨⟨cond, body⟩, member, inside⟩ := List.mem_flatMap.mp h
  have outer := List.sizeOf_lt_of_mem member
  simp [ElseIf.parts] at inside outer
  rcases inside with rfl | inside
  · simp
    omega
  · have inner := sizeOf_lt_of_mem_stmts inside
    omega

theorem sizeOf_lt_of_mem_cases {p : Part} {cases : List Case} (h : p ∈ cases.flatMap Case.parts)
    : sizeOf p < 1 + sizeOf cases := by
  obtain ⟨⟨test, body⟩, member, inside⟩ := List.mem_flatMap.mp h
  have outer := List.sizeOf_lt_of_mem member
  simp only [Case.parts, List.mem_append] at inside
  simp at outer
  rcases inside with inside | inside
  · have inner := sizeOf_lt_of_mem_option inside
    omega
  · have inner := sizeOf_lt_of_mem_stmts inside
    omega

theorem sizeOf_lt_of_mem_catches {p : Part} {catches : List Catch}
    (h : p ∈ catches.flatMap Catch.parts) : sizeOf p < 1 + sizeOf catches := by
  obtain ⟨⟨types, binder, body⟩, member, inside⟩ := List.mem_flatMap.mp h
  have outer := List.sizeOf_lt_of_mem member
  have inner := sizeOf_lt_of_mem_stmts inside
  simp at outer inner
  omega

theorem sizeOf_lt_of_mem_expr {p : Part} {e : Expr} (h : p ∈ e.parts) : sizeOf p < 1 + sizeOf e := by
  cases e <;>
    simp only [Expr.parts, List.mem_cons, List.mem_append, List.not_mem_nil, or_false] at h <;>
    grind [→ sizeOf_lt_of_mem_exprs, → sizeOf_lt_of_mem_stmts, → sizeOf_lt_of_mem_option,
      → sizeOf_lt_of_mem_classRef, → sizeOf_lt_of_mem_memberName, → sizeOf_lt_of_mem_params]

theorem sizeOf_lt_of_mem_namespace {p : Part} {decl : NamespaceDecl} (h : p ∈ stmts decl.body)
    : sizeOf p < 1 + sizeOf decl := by
  have less := sizeOf_lt_of_mem_stmts h
  have field : sizeOf decl.body < sizeOf decl := by cases decl; simp; omega
  omega

theorem sizeOf_lt_of_mem_stmt {p : Part} {s : Stmt} (h : p ∈ s.parts) : sizeOf p < 1 + sizeOf s := by
  cases s <;>
    simp only [Stmt.parts, List.mem_cons, List.mem_append, List.not_mem_nil, or_false] at h <;>
    grind [→ sizeOf_lt_of_mem_exprs, → sizeOf_lt_of_mem_stmts, → sizeOf_lt_of_mem_option,
      → sizeOf_lt_of_mem_body, → sizeOf_lt_of_mem_elseIfs, → sizeOf_lt_of_mem_cases,
      → sizeOf_lt_of_mem_catches, → sizeOf_lt_of_mem_namespace]

/-- A child is smaller than the part that it stands in. -/
theorem sizeOf_lt_of_mem_children {p q : Part} (h : p ∈ q.children) : sizeOf p < sizeOf q := by
  cases q with
  | stmt s =>
    have less : sizeOf p < 1 + sizeOf s := sizeOf_lt_of_mem_stmt h
    simpa using less
  | expr e =>
    have less : sizeOf p < 1 + sizeOf e := sizeOf_lt_of_mem_expr h
    simpa using less

end Part

end DesignMetrics
