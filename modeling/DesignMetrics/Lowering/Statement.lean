import DesignMetrics.Lowering.Declaration

/-!
Statements.
-/

namespace DesignMetrics.Lowering

def condition (children : List View) : Lower Expr := exprOf (inField? children "condition")

def bracedNamespace (label : Label) (children : List View) : Lower Stmt := do
  let name := fieldText children "name"
  modify fun scope => scope.enter name
  let body ← bodyOf children "body"
  let entered := (← get).space
  modify fun scope => scope.enter ""
  return .inNamespace { name := if name.isEmpty then none else some entered, body, span := label.span }

/-- The branches of an `if` after its first: further conditions, and what is done otherwise. -/
structure Branches where
  elseIfs : List ElseIf := []
  otherwise : Option (List Stmt) := none

namespace Branches

/-- An else branch that holds nothing but another `if` continues the chain of the first, so `else
if` and `elseif` lower alike. -/
def addElse (b : Branches) (body : List Stmt) : Branches :=
  match body with
  | [.ifElse cond first elseIfs otherwise] =>
    { elseIfs := b.elseIfs ++ ⟨cond, first⟩ :: elseIfs, otherwise }
  | _ => { b with otherwise := some body }

def addElseIf (b : Branches) (cond : Expr) (body : List Stmt) : Branches :=
  { b with elseIfs := b.elseIfs ++ [⟨cond, body⟩] }

end Branches

def branches (b : Branches) : List View → Lower Branches
  | [] => return b
  | v :: rest => do
    match v.kind with
    | "else_if_clause" =>
      let cond ← condition v.children
      let body ← bodyOf v.children "body"
      branches (b.addElseIf cond body) rest
    | "else_clause" => branches (b.addElse (← bodyOf v.children "body")) rest
    | _ => branches b rest

def ifStmt (children : List View) : Lower Stmt := do
  let cond ← condition children
  let body ← bodyOf children "body"
  let b ← branches {} (children.filter fun c => c.field == "alternative")
  return .ifElse cond body b.elseIfs b.otherwise

/-- The three sections of the head of a `for`, which semicolons divide. -/
structure ForHead where
  init : List Expr := []
  cond : List Expr := []
  step : List Expr := []

def forHead (head : ForHead) (place : Nat) : List View → Lower ForHead
  | [] => return head
  | v :: rest => do
    if v.kind = ";" then forHead head (place + 1) rest
    else if v.isPhrase then
      let es ← v.exprs
      let head :=
        match place with
        | 0 => { head with init := head.init ++ es }
        | 1 => { head with cond := head.cond ++ es }
        | _ => { head with step := head.step ++ es }
      forHead head place rest
    else forHead head place rest

def forStmt (children : List View) : Lower Stmt := do
  let head ← forHead {} 0 (children.takeWhile fun c => c.field != "body" && c.kind != ")")
  return .forLoop head.init head.cond head.step (← bodyOf children "body")

def forEachBinding (v : Option View) : Lower (Option Expr × Option Expr) := do
  match v with
  | none => return (none, none)
  | some v =>
    if v.kind = "pair" then
      match ← exprsOf ((phrases v.children).take 2) with
      | [] => return (none, none)
      | [key] => return (some key, none)
      | key :: value :: _ => return (some key, some value)
    else return (none, some (← v.expr))

def forEachStmt (children : List View) : Lower Stmt := do
  let parts := phrases (withoutField children "body")
  let subject ← exprOf parts.head?
  let (key, value) ← forEachBinding parts[1]?
  return .forEach subject key value (← bodyOf children "body")

def caseOf? (arm : View) : Lower (Option Case) := do
  let cs := arm.children
  let statements := phrases (withoutField cs "value")
  match arm.kind with
  | "case_statement" =>
    let test ← exprOf (inField? cs "value")
    return some { test := some test, body := ← stmtsOf statements }
  | "default_statement" => return some { test := none, body := ← stmtsOf statements }
  | _ => return none

def switchStmt (children : List View) : Lower Stmt := do
  let subject ← condition children
  let arms :=
    match inField? children "body" with
    | some block => phrases block.children
    | none => []
  return .switch subject ((← inOrder (arms.map caseOf?)).filterMap id)

def catchClause (v : View) : Lower Catch := do
  let cs := v.children
  let scope ← get
  let types := ((inField? cs "type").map (typeList scope)).getD []
  return { types, binder := (fieldText? cs "name").map withoutDollar, body := ← bodyOf cs "body" }

/-- The clauses of a `try` after its body. -/
structure Handlers where
  catches : List Catch := []
  cleanup : Option (List Stmt) := none

def handlers (h : Handlers) : List View → Lower Handlers
  | [] => return h
  | v :: rest => do
    match v.kind with
    | "catch_clause" => handlers { h with catches := h.catches ++ [← catchClause v] } rest
    | "finally_clause" => handlers { h with cleanup := some (← bodyOf v.children "body") } rest
    | _ => handlers h rest

def tryStmt (children : List View) : Lower Stmt := do
  let body ← bodyOf children "body"
  let h ← handlers {} (phrases children)
  return .tryCatch body h.catches h.cleanup

def expressionStmt (children : List View) : Lower (List Stmt) := do
  match (phrases children).head? with
  | none => return []
  | some inner =>
    if inner.kind = "throw_expression" then
      return [.throw (← exprOf (phrases inner.children).head?)]
    else return [.expr (← inner.expr)]

def statements (label : Label) (tags : DocTags) (children : List View) : Lower (List Stmt) := do
  match label.head.kind with
  | "php_tag" | "text_interpolation" | "text" | "empty_statement" | "comment" => return []
  | "namespace_use_declaration" => useDecl children; return []
  | "namespace_definition" => return [← bracedNamespace label children]
  | "class_declaration" => return [.classDecl (← classDecl label children)]
  | "interface_declaration" => return [.interfaceDecl (← interfaceDecl label children)]
  | "function_definition" => return [.functionDecl (← functionDecl label tags children)]
  | "compound_statement" | "colon_block" => return [.block (← stmtsOf (phrases children))]
  | "expression_statement" => expressionStmt children
  | "throw_statement" | "throw_expression" => return [.throw (← exprOf (phrases children).head?)]
  | "echo_statement" => return [.echo (← flatExprsOf (phrases children))]
  | "return_statement" =>
    match (phrases children).head? with
    | some v => return [.ret (some (← v.expr))]
    | none => return [.ret none]
  | "if_statement" => return [← ifStmt children]
  | "while_statement" =>
    let cond ← condition children
    return [.whileLoop cond (← bodyOf children "body")]
  | "do_statement" =>
    let body ← bodyOf children "body"
    return [.doWhile body (← condition children)]
  | "for_statement" => return [← forStmt children]
  | "foreach_statement" => return [← forEachStmt children]
  | "switch_statement" => return [← switchStmt children]
  | "try_statement" => return [← tryStmt children]
  | "trait_declaration" | "enum_declaration" => return []
  | _ => return [.other (← flatExprsOf (phrases children))]

end DesignMetrics.Lowering
