import DesignMetrics.Traversal.Event

/-!
References to types: the types in signatures, of properties, in `catch`, and the class operands of
`new`, `instanceof` and `::`.
-/

namespace DesignMetrics

def Expr.classOperand? : Expr → Option ClassRef
  | .newObject owner _ | .instanceOf _ owner | .staticCall owner _ _
  | .staticPropertyFetch owner _ | .classConstFetch owner _ => some owner
  | _ => none

def Stmt.caughtTypes : Stmt → List TypeRef
  | .tryCatch _ catches _ => catches.flatMap Catch.types
  | _ => []

namespace Registry

def signatureTypes (r : Registry) (returnType : Option String) (thrown parameterTypes : List String)
    : List TypeNode :=
  (returnType.bind r.type?).toList ++ r.typesNamed (thrown ++ parameterTypes)

def references (r : Registry) (current : Option TypeNode) : Visit → List TypeNode
  | .method m => r.signatureTypes m.refs.returnType m.refs.thrown m.refs.parameterTypes
  | .function f => r.signatureTypes f.refs.returnType f.refs.thrown f.refs.parameterTypes
  | .property p => (p.refs.typeName.bind r.type?).toList
  | .stmt s => s.caughtTypes.filterMap (r.resolveType? current)
  | .expr e => (e.classOperand?.bind (r.resolveClass? current)).toList
  | .unit _ | .space _ | .type _ => []

end Registry

end DesignMetrics
