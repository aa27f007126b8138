import DesignMetrics.Lowering.Types

/-!
Expressions.
-/

namespace DesignMetrics.Lowering

def inOrder {α : Type} : List (Lower α) → Lower (List α)
  | [] => return []
  | a :: rest => do
    let x ← a
    return x :: (← inOrder rest)

def argument (v : View) : Lower Expr :=
  if v.kind = "argument" then exprOf (phrases v.children).getLast? else v.expr

def arguments (children : List View) : Lower (List Expr) :=
  match inField? children "arguments" with
  | some list => inOrder ((phrases list.children).map argument)
  | none => return []

def memberName (v : Option View) : Lower MemberName :=
  match v with
  | none => return .ident ""
  | some v => if v.kind = "name" then return .ident v.text else return .dynamic (← v.expr)

def classRef (v : Option View) : Lower ClassRef :=
  match v with
  | none => return .dynamic .unknown
  | some v =>
    if v.isOneOf ["name", "qualified_name", "relative_scope", "named_type"] then
      return .type ((← get).resolveType v.text)
    else return .dynamic (← v.expr)

def param? (v : View) : Lower (Option Param) := do
  let cs := v.children
  if v.isOneOf ["simple_parameter", "property_promotion_parameter", "variadic_parameter"] then
    let scope ← get
    let default ←
      match inField? cs "default_value" with
      | some d => pure (some (← d.expr))
      | none => pure none
    return some
      { name := withoutDollar (fieldText cs "name")
        typeHint := fieldType? scope cs "type"
        default
        byRef := cs.any fun c => c.isOneOf ["reference_modifier", "&"]
        variadic := v.kind = "variadic_parameter" }
  else return none

def params (children : List View) : Lower (List Param) := do
  match inField? children "parameters" with
  | some list => return (← inOrder ((phrases list.children).map param?)).filterMap id
  | none => return []

def capturedNames (children : List View) : List String :=
  let clauses := (phrases children).filter fun c => c.kind == "anonymous_function_use_clause"
  (clauses.flatMap fun c => phrases c.children).map fun v =>
    Text.trimStart (fun ch => ch == '&' || ch == '$') v.text

def closure (kind : String) (children : List View) : Lower Expr := do
  let params ← params children
  let returnType := returnType? (← get) children {}
  let body ←
    match inField? children "body" with
    | some b => if kind = "arrow_function" then pure [.ret (some (← b.expr))] else blockOf b
    | none => pure []
  return .closure params (capturedNames children) returnType body

def objectCreation (children : List View) : Lower Expr := do
  let args ← arguments children
  let operand := (phrases children).find? fun c => !c.isOneOf ["arguments", "attribute_list"]
  let anonymous := operand.any fun c => c.isOneOf ["anonymous_class", "declaration_list"]
  let owner ← if anonymous then pure (.dynamic .unknown) else classRef operand
  return .newObject owner args

def bytesBefore? (text : String) (n : Nat) : Option String :=
  let bytes := text.toUTF8
  if n ≤ bytes.size then String.fromUTF8? (bytes.extract 0 n) else none

def bytesFrom? (text : String) (n : Nat) : Option String :=
  let bytes := text.toUTF8
  if n ≤ bytes.size then String.fromUTF8? (bytes.extract n bytes.size) else none

def unaryOperator (label : Label) (operand : Option View) : String :=
  match operand with
  | none => label.head.kind
  | some o =>
    let before := Text.trim ((bytesBefore? label.text (o.label.head.start - label.head.start)).getD "")
    if before.isEmpty then
      Text.trim ((bytesFrom? label.text (o.label.head.stop - label.head.start)).getD "")
    else before

def binary (children : List View) : Lower Expr := do
  let operator := fieldText children "operator"
  let right := inField? children "right"
  if Text.sameFolded operator "instanceof" then
    let owner ← classRef right
    return .instanceOf (← exprOf (inField? children "left")) owner
  else
    let left ← exprOf (inField? children "left")
    return .binary (.ofOperator operator) operator left (← exprOf right)

def assignment (operator : String) (children : List View) : Lower Expr := do
  let target ← exprOf (inField? children "left")
  return .assign target operator (← exprOf (inField? children "right"))

/-- Every phrase of the grammar that the metrics know has its own form; any other phrase keeps its
parts, so that calls and class names inside it stay visible. -/
def expression (label : Label) (children : List View) : Lower Expr := do
  match label.head.kind with
  | "parenthesized_expression" => exprOf (phrases children).head?
  | "integer" | "float" | "string" | "encapsed_string" | "heredoc" | "nowdoc" | "boolean" | "null" =>
    return .literal label.text
  | "variable_name" => return .var (withoutDollar label.text)
  | "name" | "qualified_name" => return .name label.text
  | "array_creation_expression" =>
    return .array (← exprsOf ((phrases children).flatMap fun c => phrases c.children))
  | "function_call_expression" =>
    let callee ← exprOf (inField? children "function")
    return .funcCall callee (← arguments children)
  | "member_call_expression" | "nullsafe_member_call_expression" =>
    let object ← exprOf (inField? children "object")
    let method ← memberName (inField? children "name")
    return .methodCall object method (← arguments children)
  | "scoped_call_expression" =>
    let owner ← classRef (inField? children "scope")
    let method ← memberName (inField? children "name")
    return .staticCall owner method (← arguments children)
  | "member_access_expression" | "nullsafe_member_access_expression" =>
    let object ← exprOf (inField? children "object")
    return .propertyFetch object (← memberName (inField? children "name"))
  | "scoped_property_access_expression" =>
    let owner ← classRef (inField? children "scope")
    return .staticPropertyFetch owner (withoutDollar (fieldText children "name"))
  | "class_constant_access_expression" =>
    match phrases children with
    | scope :: constant :: _ => return .classConstFetch (← classRef scope) constant.text
    | _ => return .unknown
  | "object_creation_expression" => objectCreation children
  | "anonymous_function" | "anonymous_function_creation_expression" | "arrow_function" =>
    closure label.head.kind children
  | "conditional_expression" =>
    let cond ← exprOf (inField? children "condition")
    let chosen ←
      match inField? children "body" with
      | some b => pure (some (← b.expr))
      | none => pure none
    return .ternary cond chosen (← exprOf (inField? children "alternative"))
  | "binary_expression" => binary children
  | "assignment_expression" => assignment "=" children
  | "reference_assignment_expression" => assignment "=&" children
  | "augmented_assignment_expression" =>
    assignment ((fieldText? children "operator").getD "=") children
  | "unary_op_expression" | "update_expression" | "cast_expression" | "error_suppression_expression"
  | "clone_expression" | "print_intrinsic" =>
    let operand := (phrases children).getLast?
    return .unary (unaryOperator label operand) (← exprOf operand)
  | _ => return .other (← flatExprsOf (phrases children))

def expressions (label : Label) (children : List View) (self : Lower Expr) : Lower (List Expr) := do
  if label.head.kind = "sequence_expression" then flatExprsOf (phrases children)
  else return [← self]

end DesignMetrics.Lowering
