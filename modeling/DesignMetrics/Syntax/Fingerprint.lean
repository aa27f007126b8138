import DesignMetrics.Digest.Blake3
import DesignMetrics.Json.Printer
import DesignMetrics.Syntax.Basic

/-!
Syntax written as JSON, and fingerprints: the hash of the compact text. A record is an object with all its
fields in order, absent parts null.
-/

namespace DesignMetrics

namespace Json

def tagged (name : String) (value : Json) : Json := .object [(name, value)]

/-- A choice is an object with one field named for the alternative, or just that name if the
alternative holds nothing. -/
def variant (name : String) (fields : List (String × Json)) : Json := tagged name (.object fields)

def ofOption {α : Type} (write : α → Json) : Option α → Json
  | none => .null
  | some a => write a

def ofList {α : Type} (write : α → Json) (items : List α) : Json := .array (items.map write)

def ofNat (n : Nat) : Json := .integer n

def ofWord (n : UInt64) : Json := ofNat n.toNat

end Json

open Json (tagged variant ofOption ofList ofNat ofWord)

def Span.toJson (s : Span) : Json :=
  .object [("start_line", ofWord s.startLine), ("end_line", ofWord s.endLine)]

def Modifiers.toJson (m : Modifiers) : Json := ofNat m.bits.toNat

def TypeRef.toJson : TypeRef → Json
  | .named name => tagged "Named" (.string name)
  | .selfType => .string "SelfType"
  | .parentType => .string "Parent"
  | .staticType => .string "Static"
  | .scalar name => tagged "Scalar" (.string name)

def BinaryOp.toJson : BinaryOp → Json
  | .booleanAnd => .string "BooleanAnd"
  | .booleanOr => .string "BooleanOr"
  | .logicalAnd => .string "LogicalAnd"
  | .logicalOr => .string "LogicalOr"
  | .logicalXor => .string "LogicalXor"
  | .other => .string "Other"

mutual

def Expr.toJson : Expr → Json
  | .literal text => tagged "Literal" (.string text)
  | .var name => tagged "Variable" (.string name)
  | .name text => tagged "Name" (.string text)
  | .array items => tagged "Array" (.array (Expr.listToJson items))
  | .propertyFetch object property =>
    variant "PropertyFetch" [("object", object.toJson), ("property", property.toJson)]
  | .staticPropertyFetch owner property =>
    variant "StaticPropertyFetch" [("class", owner.toJson), ("property", .string property)]
  | .classConstFetch owner constant =>
    variant "ClassConstFetch" [("class", owner.toJson), ("constant", .string constant)]
  | .funcCall callee args =>
    variant "FuncCall" [("callee", callee.toJson), ("args", .array (Expr.listToJson args))]
  | .methodCall object method args =>
    variant "MethodCall"
      [("object", object.toJson), ("method", method.toJson), ("args", .array (Expr.listToJson args))]
  | .staticCall owner method args =>
    variant "StaticCall"
      [("class", owner.toJson), ("method", method.toJson), ("args", .array (Expr.listToJson args))]
  | .newObject owner args =>
    variant "New" [("class", owner.toJson), ("args", .array (Expr.listToJson args))]
  | .instanceOf value owner =>
    variant "Instanceof" [("expr", value.toJson), ("class", owner.toJson)]
  | .closure params uses returnType body =>
    variant "Closure"
      [("params", .array (Param.listToJson params)), ("uses", ofList .string uses),
        ("return_type", ofOption TypeRef.toJson returnType), ("body", .array (Stmt.listToJson body))]
  | .ternary cond chosen otherwise =>
    variant "Ternary"
      [("cond", cond.toJson), ("then", Expr.optionToJson chosen), ("otherwise", otherwise.toJson)]
  | .binary op operator left right =>
    variant "Binary"
      [("op", op.toJson), ("operator", .string operator), ("lhs", left.toJson),
        ("rhs", right.toJson)]
  | .unary operator operand =>
    variant "Unary" [("operator", .string operator), ("operand", operand.toJson)]
  | .assign target operator value =>
    variant "Assign"
      [("target", target.toJson), ("operator", .string operator), ("value", value.toJson)]
  | .other parts => tagged "Other" (.array (Expr.listToJson parts))

def Expr.listToJson : List Expr → List Json
  | [] => []
  | e :: rest => e.toJson :: Expr.listToJson rest

def Expr.optionToJson : Option Expr → Json
  | none => .null
  | some e => e.toJson

def ClassRef.toJson : ClassRef → Json
  | .type t => tagged "Type" t.toJson
  | .dynamic value => tagged "Dynamic" value.toJson

def MemberName.toJson : MemberName → Json
  | .ident name => tagged "Ident" (.string name)
  | .dynamic value => tagged "Dynamic" value.toJson

def Param.toJson : Param → Json
  | ⟨name, typeHint, default, byRef, variadic⟩ =>
    .object
      [("name", .string name), ("type_hint", ofOption TypeRef.toJson typeHint),
        ("default", Expr.optionToJson default), ("by_ref", .bool byRef), ("variadic", .bool variadic)]

def Param.listToJson : List Param → List Json
  | [] => []
  | p :: rest => p.toJson :: Param.listToJson rest

def Stmt.toJson : Stmt → Json
  | .inNamespace decl => tagged "Namespace" decl.toJson
  | .classDecl decl => tagged "Class" decl.toJson
  | .interfaceDecl decl => tagged "Interface" decl.toJson
  | .functionDecl decl => tagged "Function" decl.toJson
  | .declared id => tagged "Declared" (.string id.text)
  | .expr value => tagged "Expr" value.toJson
  | .echo values => tagged "Echo" (.array (Expr.listToJson values))
  | .ret value => tagged "Return" (Expr.optionToJson value)
  | .throw value => tagged "Throw" value.toJson
  | .ifElse cond body elseIfs otherwise =>
    variant "If"
      [("cond", cond.toJson), ("then", .array (Stmt.listToJson body)),
        ("else_ifs", .array (ElseIf.listToJson elseIfs)), ("otherwise", Stmt.bodyToJson otherwise)]
  | .whileLoop cond body =>
    variant "While" [("cond", cond.toJson), ("body", .array (Stmt.listToJson body))]
  | .doWhile body cond =>
    variant "DoWhile" [("body", .array (Stmt.listToJson body)), ("cond", cond.toJson)]
  | .forLoop init cond step body =>
    variant "For"
      [("init", .array (Expr.listToJson init)), ("cond", .array (Expr.listToJson cond)),
        ("step", .array (Expr.listToJson step)), ("body", .array (Stmt.listToJson body))]
  | .forEach subject key value body =>
    variant "Foreach"
      [("subject", subject.toJson), ("key", Expr.optionToJson key),
        ("value", Expr.optionToJson value), ("body", .array (Stmt.listToJson body))]
  | .switch subject cases =>
    variant "Switch" [("subject", subject.toJson), ("cases", .array (Case.listToJson cases))]
  | .tryCatch body catches cleanup =>
    variant "Try"
      [("body", .array (Stmt.listToJson body)), ("catches", .array (Catch.listToJson catches)),
        ("finally", Stmt.bodyToJson cleanup)]
  | .block body => tagged "Block" (.array (Stmt.listToJson body))
  | .other parts => tagged "Other" (.array (Expr.listToJson parts))

def Stmt.listToJson : List Stmt → List Json
  | [] => []
  | s :: rest => s.toJson :: Stmt.listToJson rest

def Stmt.bodyToJson : Option (List Stmt) → Json
  | none => .null
  | some body => .array (Stmt.listToJson body)

def ElseIf.toJson : ElseIf → Json
  | ⟨cond, body⟩ => .object [("cond", cond.toJson), ("body", .array (Stmt.listToJson body))]

def ElseIf.listToJson : List ElseIf → List Json
  | [] => []
  | e :: rest => e.toJson :: ElseIf.listToJson rest

def Case.toJson : Case → Json
  | ⟨test, body⟩ =>
    .object [("test", Expr.optionToJson test), ("body", .array (Stmt.listToJson body))]

def Case.listToJson : List Case → List Json
  | [] => []
  | c :: rest => c.toJson :: Case.listToJson rest

def Catch.toJson : Catch → Json
  | ⟨types, binder, body⟩ =>
    .object
      [("types", ofList TypeRef.toJson types), ("var", ofOption .string binder),
        ("body", .array (Stmt.listToJson body))]

def Catch.listToJson : List Catch → List Json
  | [] => []
  | c :: rest => c.toJson :: Catch.listToJson rest

def NamespaceDecl.toJson : NamespaceDecl → Json
  | ⟨name, body, span⟩ =>
    .object
      [("name", ofOption .string name), ("body", .array (Stmt.listToJson body)), ("span", span.toJson)]

def ClassDecl.toJson : ClassDecl → Json
  | ⟨name, modifiers, parent, interfaces, members, span⟩ =>
    .object
      [("name", .string name), ("modifiers", modifiers.toJson), ("extends", ofOption .string parent),
        ("implements", ofList .string interfaces), ("members", .array (Member.listToJson members)),
        ("span", span.toJson)]

def InterfaceDecl.toJson : InterfaceDecl → Json
  | ⟨name, parents, members, span⟩ =>
    .object
      [("name", .string name), ("extends", ofList .string parents),
        ("members", .array (Member.listToJson members)), ("span", span.toJson)]

def FunctionDecl.toJson : FunctionDecl → Json
  | ⟨name, params, returnType, throws, body, span⟩ =>
    .object
      [("name", .string name), ("params", .array (Param.listToJson params)),
        ("return_type", ofOption TypeRef.toJson returnType), ("throws", ofList TypeRef.toJson throws),
        ("body", .array (Stmt.listToJson body)), ("span", span.toJson)]

def Member.toJson : Member → Json
  | .method decl => tagged "Method" decl.toJson
  | .property decl => tagged "Property" decl.toJson
  | .constant decl => tagged "Constant" decl.toJson

def Member.listToJson : List Member → List Json
  | [] => []
  | m :: rest => m.toJson :: Member.listToJson rest

def MethodDecl.toJson : MethodDecl → Json
  | ⟨name, modifiers, params, returnType, throws, body, span⟩ =>
    .object
      [("name", .string name), ("modifiers", modifiers.toJson),
        ("params", .array (Param.listToJson params)),
        ("return_type", ofOption TypeRef.toJson returnType), ("throws", ofList TypeRef.toJson throws),
        ("body", Stmt.bodyToJson body), ("span", span.toJson)]

def PropertyDecl.toJson : PropertyDecl → Json
  | ⟨name, modifiers, typeHint, default, span⟩ =>
    .object
      [("name", .string name), ("modifiers", modifiers.toJson),
        ("type_hint", ofOption TypeRef.toJson typeHint), ("default", Expr.optionToJson default),
        ("span", span.toJson)]

def ConstDecl.toJson : ConstDecl → Json
  | ⟨name, value, span⟩ =>
    .object [("name", .string name), ("value", value.toJson), ("span", span.toJson)]

end

def SourceFile.toJson (f : SourceFile) : Json :=
  .object [("path", .string f.path), ("statements", .array (Stmt.listToJson f.statements))]

def fingerprint (value : Json) : String := Digest.Blake3.hexHash value.compact.toUTF8

/-- Equal declarations have equal fingerprints, whatever file they stand in. -/
def MethodDecl.fingerprint (decl : MethodDecl) : String := DesignMetrics.fingerprint decl.toJson

def FunctionDecl.fingerprint (decl : FunctionDecl) : String := DesignMetrics.fingerprint decl.toJson

end DesignMetrics
