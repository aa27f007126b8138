import DesignMetrics.Syntax.Basic

/-!
Expressions rendered as text close to their source.
-/

namespace DesignMetrics

def TypeRef.render : TypeRef → String
  | .named name => "\\" ++ name
  | .selfType => "self"
  | .parentType => "parent"
  | .staticType => "static"
  | .scalar name => name

def commaSeparated (parts : List String) : String := ", ".intercalate parts

def Expr.isPlainCallee : Expr → Bool
  | .name _ | .var _ | .propertyFetch .. | .staticPropertyFetch .. => true
  | _ => false

def Expr.calleeText (callee : Expr) (text : String) : String :=
  if callee.isPlainCallee then text else "(" ++ text ++ ")"

def Param.text (name : String) (typeHint : Option TypeRef) (byRef variadic : Bool)
    (default : Option String) : String :=
  (match typeHint with | some t => t.render ++ " " | none => "")
    ++ (if byRef then "&" else "") ++ (if variadic then "..." else "") ++ "$" ++ name
    ++ (match default with | some d => " = " ++ d | none => "")

def closureText (params : List String) (uses : List String) : String :=
  "function (" ++ commaSeparated params ++ ")"
    ++ (if uses.isEmpty then "" else " use (" ++ commaSeparated (uses.map ("$" ++ ·)) ++ ")")
    ++ " \x7b ... \x7d"

mutual

def Expr.render : Expr → String
  | .literal text => text
  | .var name => "$" ++ name
  | .name text => text
  | .array items => "array(" ++ commaSeparated (Expr.renderAll items) ++ ")"
  | .propertyFetch object property => object.render ++ "->" ++ property.render
  | .staticPropertyFetch owner property => owner.render ++ "::$" ++ property
  | .classConstFetch owner constant => owner.render ++ "::" ++ constant
  | .funcCall callee args =>
    callee.calleeText callee.render ++ "(" ++ commaSeparated (Expr.renderAll args) ++ ")"
  | .methodCall object method args =>
    object.render ++ "->" ++ method.render ++ "(" ++ commaSeparated (Expr.renderAll args) ++ ")"
  | .staticCall owner method args =>
    owner.render ++ "::" ++ method.render ++ "(" ++ commaSeparated (Expr.renderAll args) ++ ")"
  | .newObject owner args =>
    "new " ++ owner.render ++ "(" ++ commaSeparated (Expr.renderAll args) ++ ")"
  | .instanceOf value owner => value.render ++ " instanceof " ++ owner.render
  | .closure params uses _ _ => closureText (Param.renderAll params) uses
  | .ternary cond chosen otherwise =>
    match Expr.renderOption chosen with
    | some text => cond.render ++ " ? " ++ text ++ " : " ++ otherwise.render
    | none => cond.render ++ " ?: " ++ otherwise.render
  | .binary _ operator left right => left.render ++ " " ++ operator ++ " " ++ right.render
  | .unary operator operand => operator ++ operand.render
  | .assign target operator value => target.render ++ " " ++ operator ++ " " ++ value.render
  | .other parts => commaSeparated (Expr.renderAll parts)

def Expr.renderAll : List Expr → List String
  | [] => []
  | e :: rest => e.render :: Expr.renderAll rest

def Expr.renderOption : Option Expr → Option String
  | none => none
  | some e => some e.render

def ClassRef.render : ClassRef → String
  | .type t => t.render
  | .dynamic value => value.render

def MemberName.render : MemberName → String
  | .ident name => name
  | .dynamic value => "\x7b" ++ value.render ++ "\x7d"

def Param.render : Param → String
  | ⟨name, typeHint, default, byRef, variadic⟩ =>
    Param.text name typeHint byRef variadic (Expr.renderOption default)

def Param.renderAll : List Param → List String
  | [] => []
  | p :: rest => p.render :: Param.renderAll rest

end

/-- The signature of a call is its text without arguments, so that `foo(1)` and `foo(2)` have the
same. -/
def Expr.signature? : Expr → Option String
  | .funcCall callee _ => some (callee.calleeText callee.render ++ "()")
  | .methodCall object method _ => some (object.render ++ "->" ++ method.render ++ "()")
  | .staticCall owner method _ => some (owner.render ++ "::" ++ method.render ++ "()")
  | _ => none

end DesignMetrics
