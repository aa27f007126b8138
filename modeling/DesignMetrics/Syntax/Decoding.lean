import DesignMetrics.Json.Decode
import DesignMetrics.Syntax.Basic

/-!
Syntax read from JSON, the inverse of its encoding.
-/

namespace DesignMetrics

open Json (Leeway Reads string? bool? word? natBelow? list? optional? fields? held? choice? unit?)

def Span.ofJson? : Reads Span := fun j => do
  match ← fields? ["start_line", "end_line"] j with
  | [first, last] => return ⟨← first.required word?, ← last.required word?⟩
  | _ => none

def Modifiers.ofJson? : Reads Modifiers := fun j =>
  (natBelow? 256 j).map fun n => ⟨n.toUInt8⟩

def NodeId.ofJson? : Reads NodeId := fun j => (string? j).map NodeId.mk

def TypeRef.ofJson? (w : Leeway) : Reads TypeRef := fun j => do
  match ← choice? j with
  | ("Named", some j) => return .named (← string? j)
  | ("SelfType", j) => unit? w j; return .selfType
  | ("Parent", j) => unit? w j; return .parentType
  | ("Static", j) => unit? w j; return .staticType
  | ("Scalar", some j) => return .scalar (← string? j)
  | _ => none

def BinaryOp.ofJson? (w : Leeway) : Reads BinaryOp := fun j => do
  let (name, j) ← choice? j
  unit? w j
  match name with
  | "BooleanAnd" => return .booleanAnd
  | "BooleanOr" => return .booleanOr
  | "LogicalAnd" => return .logicalAnd
  | "LogicalOr" => return .logicalOr
  | "LogicalXor" => return .logicalXor
  | "Other" => return .other
  | _ => none

def ClassRef.read? (w : Leeway) (expr : Reads Expr) : Reads ClassRef := fun j => do
  match ← choice? j with
  | ("Type", some j) => return .type (← TypeRef.ofJson? w j)
  | ("Dynamic", some j) => return .dynamic (← expr j)
  | _ => none

def MemberName.read? (expr : Reads Expr) : Reads MemberName := fun j => do
  match ← choice? j with
  | ("Ident", some j) => return .ident (← string? j)
  | ("Dynamic", some j) => return .dynamic (← expr j)
  | _ => none

def Param.read? (w : Leeway) (expr : Reads Expr) : Reads Param := fun j => do
  match ← fields? ["name", "type_hint", "default", "by_ref", "variadic"] j with
  | [name, typeHint, default, byRef, variadic] =>
    return { name := ← name.required string?
             typeHint := ← typeHint.optional (TypeRef.ofJson? w)
             default := ← default.optional expr
             byRef := ← byRef.required bool?
             variadic := ← variadic.required bool? }
  | _ => none

def ElseIf.read? (expr : Reads Expr) (stmt : Reads Stmt) : Reads ElseIf := fun j => do
  match ← fields? ["cond", "body"] j with
  | [cond, body] => return ⟨← cond.required expr, ← body.required (list? stmt)⟩
  | _ => none

def Case.read? (expr : Reads Expr) (stmt : Reads Stmt) : Reads Case := fun j => do
  match ← fields? ["test", "body"] j with
  | [test, body] => return ⟨← test.optional expr, ← body.required (list? stmt)⟩
  | _ => none

def Catch.read? (w : Leeway) (stmt : Reads Stmt) : Reads Catch := fun j => do
  match ← fields? ["types", "var", "body"] j with
  | [types, binder, body] =>
    return { types := ← types.required (list? (TypeRef.ofJson? w))
             binder := ← binder.optional string?
             body := ← body.required (list? stmt) }
  | _ => none

def NamespaceDecl.read? (stmt : Reads Stmt) : Reads NamespaceDecl := fun j => do
  match ← fields? ["name", "body", "span"] j with
  | [name, body, span] =>
    return { name := ← name.optional string?
             body := ← body.required (list? stmt)
             span := ← span.required Span.ofJson? }
  | _ => none

def FunctionDecl.read? (w : Leeway) (expr : Reads Expr) (stmt : Reads Stmt)
    : Reads FunctionDecl := fun j => do
  match ← fields? ["name", "params", "return_type", "throws", "body", "span"] j with
  | [name, params, returnType, throws, body, span] =>
    return { name := ← name.required string?
             params := ← params.required (list? (Param.read? w expr))
             returnType := ← returnType.optional (TypeRef.ofJson? w)
             throws := ← throws.required (list? (TypeRef.ofJson? w))
             body := ← body.required (list? stmt)
             span := ← span.required Span.ofJson? }
  | _ => none

def MethodDecl.read? (w : Leeway) (expr : Reads Expr) (stmt : Reads Stmt)
    : Reads MethodDecl := fun j => do
  match ← fields? ["name", "modifiers", "params", "return_type", "throws", "body", "span"] j with
  | [name, modifiers, params, returnType, throws, body, span] =>
    return { name := ← name.required string?
             modifiers := ← modifiers.required Modifiers.ofJson?
             params := ← params.required (list? (Param.read? w expr))
             returnType := ← returnType.optional (TypeRef.ofJson? w)
             throws := ← throws.required (list? (TypeRef.ofJson? w))
             body := ← body.optional (list? stmt)
             span := ← span.required Span.ofJson? }
  | _ => none

def PropertyDecl.read? (w : Leeway) (expr : Reads Expr) : Reads PropertyDecl := fun j => do
  match ← fields? ["name", "modifiers", "type_hint", "default", "span"] j with
  | [name, modifiers, typeHint, default, span] =>
    return { name := ← name.required string?
             modifiers := ← modifiers.required Modifiers.ofJson?
             typeHint := ← typeHint.optional (TypeRef.ofJson? w)
             default := ← default.optional expr
             span := ← span.required Span.ofJson? }
  | _ => none

def ConstDecl.read? (expr : Reads Expr) : Reads ConstDecl := fun j => do
  match ← fields? ["name", "value", "span"] j with
  | [name, value, span] =>
    return { name := ← name.required string?
             value := ← value.required expr
             span := ← span.required Span.ofJson? }
  | _ => none

def Member.read? (w : Leeway) (expr : Reads Expr) (stmt : Reads Stmt) : Reads Member := fun j => do
  match ← choice? j with
  | ("Method", some j) => return .method (← MethodDecl.read? w expr stmt j)
  | ("Property", some j) => return .property (← PropertyDecl.read? w expr j)
  | ("Constant", some j) => return .constant (← ConstDecl.read? expr j)
  | _ => none

def ClassDecl.read? (w : Leeway) (expr : Reads Expr) (stmt : Reads Stmt)
    : Reads ClassDecl := fun j => do
  match ← fields? ["name", "modifiers", "extends", "implements", "members", "span"] j with
  | [name, modifiers, parent, interfaces, members, span] =>
    return { name := ← name.required string?
             modifiers := ← modifiers.required Modifiers.ofJson?
             parent := ← parent.optional string?
             interfaces := ← interfaces.required (list? string?)
             members := ← members.required (list? (Member.read? w expr stmt))
             span := ← span.required Span.ofJson? }
  | _ => none

def InterfaceDecl.read? (w : Leeway) (expr : Reads Expr) (stmt : Reads Stmt)
    : Reads InterfaceDecl := fun j => do
  match ← fields? ["name", "extends", "members", "span"] j with
  | [name, parents, members, span] =>
    return { name := ← name.required string?
             parents := ← parents.required (list? string?)
             members := ← members.required (list? (Member.read? w expr stmt))
             span := ← span.required Span.ofJson? }
  | _ => none

def Expr.readWith? (w : Leeway) (expr : Reads Expr) (stmt : Reads Stmt) : Reads Expr := fun j => do
  match ← choice? j with
  | ("Literal", some j) => return .literal (← string? j)
  | ("Variable", some j) => return .var (← string? j)
  | ("Name", some j) => return .name (← string? j)
  | ("Array", some j) => return .array (← list? expr j)
  | ("PropertyFetch", some j) =>
    match ← held? w ["object", "property"] j with
    | [object, property] =>
      return .propertyFetch (← object.required expr) (← property.required (MemberName.read? expr))
    | _ => none
  | ("StaticPropertyFetch", some j) =>
    match ← held? w ["class", "property"] j with
    | [owner, property] =>
      return .staticPropertyFetch (← owner.required (ClassRef.read? w expr))
        (← property.required string?)
    | _ => none
  | ("ClassConstFetch", some j) =>
    match ← held? w ["class", "constant"] j with
    | [owner, constant] =>
      return .classConstFetch (← owner.required (ClassRef.read? w expr))
        (← constant.required string?)
    | _ => none
  | ("FuncCall", some j) =>
    match ← held? w ["callee", "args"] j with
    | [callee, args] => return .funcCall (← callee.required expr) (← args.required (list? expr))
    | _ => none
  | ("MethodCall", some j) =>
    match ← held? w ["object", "method", "args"] j with
    | [object, method, args] =>
      return .methodCall (← object.required expr) (← method.required (MemberName.read? expr))
        (← args.required (list? expr))
    | _ => none
  | ("StaticCall", some j) =>
    match ← held? w ["class", "method", "args"] j with
    | [owner, method, args] =>
      return .staticCall (← owner.required (ClassRef.read? w expr))
        (← method.required (MemberName.read? expr)) (← args.required (list? expr))
    | _ => none
  | ("New", some j) =>
    match ← held? w ["class", "args"] j with
    | [owner, args] =>
      return .newObject (← owner.required (ClassRef.read? w expr)) (← args.required (list? expr))
    | _ => none
  | ("Instanceof", some j) =>
    match ← held? w ["expr", "class"] j with
    | [value, owner] =>
      return .instanceOf (← value.required expr) (← owner.required (ClassRef.read? w expr))
    | _ => none
  | ("Closure", some j) =>
    match ← held? w ["params", "uses", "return_type", "body"] j with
    | [params, uses, returnType, body] =>
      return .closure (← params.required (list? (Param.read? w expr)))
        (← uses.required (list? string?))
        (← returnType.optional (TypeRef.ofJson? w)) (← body.required (list? stmt))
    | _ => none
  | ("Ternary", some j) =>
    match ← held? w ["cond", "then", "otherwise"] j with
    | [cond, chosen, otherwise] =>
      return .ternary (← cond.required expr) (← chosen.optional expr) (← otherwise.required expr)
    | _ => none
  | ("Binary", some j) =>
    match ← held? w ["op", "operator", "lhs", "rhs"] j with
    | [op, operator, left, right] =>
      return .binary (← op.required (BinaryOp.ofJson? w)) (← operator.required string?)
        (← left.required expr) (← right.required expr)
    | _ => none
  | ("Unary", some j) =>
    match ← held? w ["operator", "operand"] j with
    | [operator, operand] => return .unary (← operator.required string?) (← operand.required expr)
    | _ => none
  | ("Assign", some j) =>
    match ← held? w ["target", "operator", "value"] j with
    | [target, operator, value] =>
      return .assign (← target.required expr) (← operator.required string?) (← value.required expr)
    | _ => none
  | ("Other", some j) => return .other (← list? expr j)
  | _ => none

def Stmt.readWith? (w : Leeway) (expr : Reads Expr) (stmt : Reads Stmt) : Reads Stmt := fun j => do
  match ← choice? j with
  | ("Namespace", some j) => return .inNamespace (← NamespaceDecl.read? stmt j)
  | ("Class", some j) => return .classDecl (← ClassDecl.read? w expr stmt j)
  | ("Interface", some j) => return .interfaceDecl (← InterfaceDecl.read? w expr stmt j)
  | ("Function", some j) => return .functionDecl (← FunctionDecl.read? w expr stmt j)
  | ("Declared", some j) => return .declared (← NodeId.ofJson? j)
  | ("Expr", some j) => return .expr (← expr j)
  | ("Echo", some j) => return .echo (← list? expr j)
  | ("Return", some j) => return .ret (← optional? expr j)
  | ("Throw", some j) => return .throw (← expr j)
  | ("If", some j) =>
    match ← held? w ["cond", "then", "else_ifs", "otherwise"] j with
    | [cond, body, elseIfs, otherwise] =>
      return .ifElse (← cond.required expr) (← body.required (list? stmt))
        (← elseIfs.required (list? (ElseIf.read? expr stmt))) (← otherwise.optional (list? stmt))
    | _ => none
  | ("While", some j) =>
    match ← held? w ["cond", "body"] j with
    | [cond, body] => return .whileLoop (← cond.required expr) (← body.required (list? stmt))
    | _ => none
  | ("DoWhile", some j) =>
    match ← held? w ["body", "cond"] j with
    | [body, cond] => return .doWhile (← body.required (list? stmt)) (← cond.required expr)
    | _ => none
  | ("For", some j) =>
    match ← held? w ["init", "cond", "step", "body"] j with
    | [init, cond, step, body] =>
      return .forLoop (← init.required (list? expr)) (← cond.required (list? expr))
        (← step.required (list? expr)) (← body.required (list? stmt))
    | _ => none
  | ("Foreach", some j) =>
    match ← held? w ["subject", "key", "value", "body"] j with
    | [subject, key, value, body] =>
      return .forEach (← subject.required expr) (← key.optional expr) (← value.optional expr)
        (← body.required (list? stmt))
    | _ => none
  | ("Switch", some j) =>
    match ← held? w ["subject", "cases"] j with
    | [subject, cases] =>
      return .switch (← subject.required expr) (← cases.required (list? (Case.read? expr stmt)))
    | _ => none
  | ("Try", some j) =>
    match ← held? w ["body", "catches", "finally"] j with
    | [body, catches, cleanup] =>
      return .tryCatch (← body.required (list? stmt))
        (← catches.required (list? (Catch.read? w stmt)))
        (← cleanup.optional (list? stmt))
    | _ => none
  | ("Block", some j) => return .block (← list? stmt j)
  | ("Other", some j) => return .other (← list? expr j)
  | _ => none

mutual

def Expr.readTo? (w : Leeway) : Nat → Reads Expr
  | 0 => fun _ => none
  | n + 1 => Expr.readWith? w (Expr.readTo? w n) (Stmt.readTo? w n)

def Stmt.readTo? (w : Leeway) : Nat → Reads Stmt
  | 0 => fun _ => none
  | n + 1 => Stmt.readWith? w (Expr.readTo? w n) (Stmt.readTo? w n)

end

/-- A value nested less deeply than the levels it is read to is read whole, so the depth of the JSON
value is always enough. -/
def Expr.ofJson? (w : Leeway) : Reads Expr := fun j => Expr.readTo? w j.depth j

def Stmt.ofJson? (w : Leeway) : Reads Stmt := fun j => Stmt.readTo? w j.depth j

def ClassRef.ofJson? (w : Leeway) : Reads ClassRef := ClassRef.read? w (Expr.ofJson? w)

def Param.ofJson? (w : Leeway) : Reads Param := Param.read? w (Expr.ofJson? w)

def MethodDecl.ofJson? (w : Leeway) : Reads MethodDecl :=
  MethodDecl.read? w (Expr.ofJson? w) (Stmt.ofJson? w)

def FunctionDecl.ofJson? (w : Leeway) : Reads FunctionDecl :=
  FunctionDecl.read? w (Expr.ofJson? w) (Stmt.ofJson? w)

def SourceFile.ofJson? (w : Leeway) : Reads SourceFile := fun j => do
  match ← fields? ["path", "statements"] j with
  | [path, statements] =>
    return ⟨← path.required string?, ← statements.required (list? (Stmt.ofJson? w))⟩
  | _ => none

end DesignMetrics
