import DesignMetrics.NodeId
import DesignMetrics.Syntax.Modifiers

/-!
The syntax of PHP files as far as design metrics look at it: statements, expressions and
declarations. Names of classes, interfaces and functions are fully qualified and have no backslash
in front. Nothing here is resolved; a declaration that has been bound to a node of the model is
replaced by the marker `Stmt.declared`.
-/

namespace DesignMetrics

/-- The first and the last line of a piece of source, counted from one. -/
structure Span where
  startLine : UInt64
  endLine : UInt64
  deriving DecidableEq, Repr

/-- A type as written in a hint or a comment. -/
inductive TypeRef where
  | named (name : String)
  | selfType
  | parentType
  | staticType
  | scalar (name : String)
  deriving DecidableEq, Repr

namespace TypeRef

def isScalar : TypeRef → Bool
  | scalar _ => true
  | _ => false

end TypeRef

/-- Operators by what they mean for control flow. -/
inductive BinaryOp where
  | booleanAnd
  | booleanOr
  | logicalAnd
  | logicalOr
  | logicalXor
  | other
  deriving DecidableEq, Repr

namespace BinaryOp

def ofOperator (operator : String) : BinaryOp :=
  match Text.lower operator with
  | "&&" => booleanAnd
  | "||" => booleanOr
  | "and" => logicalAnd
  | "or" => logicalOr
  | "xor" => logicalXor
  | _ => other

def isShortCircuit : BinaryOp → Bool
  | booleanAnd | booleanOr | logicalAnd | logicalOr => true
  | logicalXor | other => false

end BinaryOp

mutual

inductive Expr where
  | literal (text : String)
  | var (name : String)
  | name (text : String)
  | array (items : List Expr)
  | propertyFetch (object : Expr) (property : MemberName)
  | staticPropertyFetch (owner : ClassRef) (property : String)
  | classConstFetch (owner : ClassRef) (constant : String)
  | funcCall (callee : Expr) (args : List Expr)
  | methodCall (object : Expr) (method : MemberName) (args : List Expr)
  | staticCall (owner : ClassRef) (method : MemberName) (args : List Expr)
  | newObject (owner : ClassRef) (args : List Expr)
  | instanceOf (value : Expr) (owner : ClassRef)
  | closure (params : List Param) (uses : List String) (returnType : Option TypeRef)
      (body : List Stmt)
  | ternary (cond : Expr) (chosen : Option Expr) (otherwise : Expr)
  | binary (op : BinaryOp) (operator : String) (left right : Expr)
  | unary (operator : String) (operand : Expr)
  | assign (target : Expr) (operator : String) (value : Expr)
  | other (parts : List Expr)

/-- The class operand of `new`, `instanceof` and `::`. -/
inductive ClassRef where
  | type (type : TypeRef)
  | dynamic (value : Expr)

/-- The member operand of `->` and `::`. -/
inductive MemberName where
  | ident (name : String)
  | dynamic (value : Expr)

structure Param where
  name : String
  typeHint : Option TypeRef
  default : Option Expr
  byRef : Bool
  variadic : Bool

inductive Stmt where
  | inNamespace (decl : NamespaceDecl)
  | classDecl (decl : ClassDecl)
  | interfaceDecl (decl : InterfaceDecl)
  | functionDecl (decl : FunctionDecl)
  | declared (id : NodeId)
  | expr (value : Expr)
  | echo (values : List Expr)
  | ret (value : Option Expr)
  | throw (value : Expr)
  | ifElse (cond : Expr) (body : List Stmt) (elseIfs : List ElseIf)
      (otherwise : Option (List Stmt))
  | whileLoop (cond : Expr) (body : List Stmt)
  | doWhile (body : List Stmt) (cond : Expr)
  | forLoop (init cond step : List Expr) (body : List Stmt)
  | forEach (subject : Expr) (key value : Option Expr) (body : List Stmt)
  | switch (subject : Expr) (cases : List Case)
  | tryCatch (body : List Stmt) (catches : List Catch) (cleanup : Option (List Stmt))
  | block (body : List Stmt)
  | other (parts : List Expr)

structure ElseIf where
  cond : Expr
  body : List Stmt

/-- An arm of a switch; the default arm has no test. -/
structure Case where
  test : Option Expr
  body : List Stmt

structure Catch where
  types : List TypeRef
  binder : Option String
  body : List Stmt

/-- A namespace with its statements; the global namespace has no name. -/
structure NamespaceDecl where
  name : Option String
  body : List Stmt
  span : Span

structure ClassDecl where
  name : String
  modifiers : Modifiers
  parent : Option String
  interfaces : List String
  members : List Member
  span : Span

structure InterfaceDecl where
  name : String
  parents : List String
  members : List Member
  span : Span

structure FunctionDecl where
  name : String
  params : List Param
  returnType : Option TypeRef
  throws : List TypeRef
  body : List Stmt
  span : Span

inductive Member where
  | method (decl : MethodDecl)
  | property (decl : PropertyDecl)
  | constant (decl : ConstDecl)

/-- A method; an abstract one has no body. -/
structure MethodDecl where
  name : String
  modifiers : Modifiers
  params : List Param
  returnType : Option TypeRef
  throws : List TypeRef
  body : Option (List Stmt)
  span : Span

/-- A property, its name without dollar sign. -/
structure PropertyDecl where
  name : String
  modifiers : Modifiers
  typeHint : Option TypeRef
  default : Option Expr
  span : Span

structure ConstDecl where
  name : String
  value : Expr
  span : Span

end

/-- The statements of one file. -/
structure SourceFile where
  path : String
  statements : List Stmt

namespace Expr

def isCall : Expr → Bool
  | funcCall .. | methodCall .. | staticCall .. => true
  | _ => false

end Expr

end DesignMetrics
