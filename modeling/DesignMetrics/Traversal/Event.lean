import DesignMetrics.Model.Unit

/-!
What a traversal of units meets. Everything visited is entered, then what is inside it is visited,
then it is left.
-/

namespace DesignMetrics

/-- What can be entered and left. -/
inductive Visit where
  | unit (unit : CompilationUnit)
  | space (node : NamespaceNode)
  | type (node : TypeNode)
  | method (node : MethodNode)
  | function (node : FunctionNode)
  | property (node : PropertyNode)
  | stmt (value : Stmt)
  | expr (value : Expr)

inductive Event where
  | enter (visit : Visit)
  | leave (visit : Visit)

def Visit.place? : Visit → Option String
  | .unit u => some u.path
  | .type t => some t.id.text
  | .method m => some m.id.text
  | .function f => some f.id.text
  | .property p => some p.id.text
  | .space _ | .stmt _ | .expr _ => none

def Event.visit : Event → Visit
  | .enter v | .leave v => v

def Event.place (e : Event) (before : String) : String := e.visit.place?.getD before

end DesignMetrics
