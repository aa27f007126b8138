import DesignMetrics.Traversal.Observer

/-!
A recorder writes down every event as a line of text.
-/

namespace DesignMetrics

def Stmt.word : Stmt → String
  | .inNamespace _ => "Namespace"
  | .classDecl _ => "Class"
  | .interfaceDecl _ => "Interface"
  | .functionDecl _ => "Function"
  | .declared _ => "Declared"
  | .expr _ => "Expr"
  | .echo _ => "Echo"
  | .ret _ => "Return"
  | .throw _ => "Throw"
  | .ifElse .. => "If"
  | .whileLoop .. => "While"
  | .doWhile .. => "DoWhile"
  | .forLoop .. => "For"
  | .forEach .. => "Foreach"
  | .switch .. => "Switch"
  | .tryCatch .. => "Try"
  | .block _ => "Block"
  | .other _ => "Other"

def Expr.word : Expr → String
  | .literal text => "Literal " ++ text
  | .var v => "Variable " ++ v
  | .name text => "Name " ++ text
  | .array _ => "Array"
  | .propertyFetch .. => "PropertyFetch"
  | .staticPropertyFetch .. => "StaticPropertyFetch"
  | .classConstFetch .. => "ClassConstFetch"
  | .funcCall .. => "FuncCall"
  | .methodCall .. => "MethodCall"
  | .staticCall .. => "StaticCall"
  | .newObject .. => "New"
  | .instanceOf .. => "Instanceof"
  | .closure .. => "Closure"
  | .ternary .. => "Ternary"
  | .binary .. => "Binary"
  | .unary .. => "Unary"
  | .assign .. => "Assign"
  | .other _ => "Other"

def Visit.text : Visit → String
  | .unit u => "unit " ++ u.scopeId.text
  | .space n => "namespace " ++ n.id.text
  | .type t => t.kind.nodeKind.word ++ " " ++ t.id.text
  | .method m => "method " ++ m.id.text
  | .function f => "function " ++ f.id.text
  | .property p => "property " ++ p.id.text
  | .stmt s => "stmt " ++ s.word
  | .expr e => "expr " ++ e.word

def Event.text : Event → String
  | .enter v => "+" ++ v.text
  | .leave v => "-" ++ v.text

structure Recorder where
  name : String
  refuseAt : Option Nat
  count : Nat := 0
  lines : List String := []

namespace Recorder

/-- A recorder's refusal of an event, by its text. -/
structure Refusal where
  line : String

def Refusal.message (r : Refusal) : String := "refused " ++ r.line

def log (r : Recorder) : List String := r.lines.reverse

/-- A recorder can be told to refuse the event that would have a given number, counted from zero. -/
def record (r : Recorder) (e : Event) : Except Refusal Recorder :=
  if r.refuseAt = some r.count then .error ⟨e.text⟩
  else .ok { r with count := r.count + 1, lines := e.text :: r.lines }

instance : Observer Recorder Refusal where
  name := Recorder.name
  observe _ e r := r.record e

def trace (r : Registry) (units : List CompilationUnit) (recorders : List Recorder)
    : Outcome Recorder Refusal :=
  let refusals := (recorders.filterMap refuseAt).foldl max 0
  Traversal.follow r (Walk.unitsTo r (r.size + refusals + 2) units) recorders

end Recorder

end DesignMetrics
