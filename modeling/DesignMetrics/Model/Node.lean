import DesignMetrics.Syntax.Basic

/-!
Nodes of the model: the namespaces, classes, interfaces, methods, functions and properties of a
project.
-/

namespace DesignMetrics

/-- Where a node is declared. -/
structure Location where
  file : String
  startLine : UInt64
  endLine : UInt64
  deriving DecidableEq, Repr

def Location.ofSpan (file : String) (span : Span) : Location := ⟨file, span.startLine, span.endLine⟩

def splitQualified (name : String) : String × String :=
  (Text.splitLast? '\\' name).getD ("", name)

structure NamespaceNode where
  id : NodeId
  name : String
  userDefined : Bool
  cached : Bool := false
  location : Option Location

def NamespaceNode.placeholder (name : String) : NamespaceNode :=
  { id := .space name, name := if name.isEmpty then NodeId.globalName else name
    userDefined := false, location := none }

inductive TypeKind where
  | classType
  | interfaceType
  deriving DecidableEq, Repr

def TypeKind.nodeKind : TypeKind → NodeKind
  | classType => .classType
  | interfaceType => .interfaceType

/-- What a class or interface refers to. -/
structure TypeRefs where
  space : String
  parent : Option String
  interfaces : List String
  deriving DecidableEq

/-- A class or an interface. -/
structure TypeNode where
  id : NodeId
  name : String
  kind : TypeKind
  modifiers : Modifiers
  userDefined : Bool
  cached : Bool := false
  location : Option Location
  refs : TypeRefs
  members : List NodeId
  constants : List String

namespace TypeNode

def placeholder (name : String) (kind : TypeKind) : TypeNode :=
  let (space, short) := splitQualified name
  { id := .ofKey name kind.nodeKind, name := short, kind, modifiers := .none, userDefined := false
    location := none, refs := ⟨space, none, []⟩, members := [], constants := [] }

def qualifiedName (t : TypeNode) : String := t.id.key

def isInterface (t : TypeNode) : Bool := t.kind = .interfaceType

def isAbstract (t : TypeNode) : Bool := t.isInterface || t.modifiers.contains .isAbstract

def superTypeIds (t : TypeNode) : List NodeId :=
  (t.refs.parent.map NodeId.classType).toList ++ t.refs.interfaces.map NodeId.interfaceType

end TypeNode

/-- What a method refers to. -/
structure MethodRefs where
  space : String
  declaringType : String
  returnType : Option String
  thrown : List String
  parameterTypes : List String
  deriving DecidableEq

structure MethodNode where
  id : NodeId
  name : String
  modifiers : Modifiers
  cached : Bool := false
  location : Location
  refs : MethodRefs
  params : List Param
  body : Option (List Stmt)
  fingerprint : String

def MethodNode.isAbstract (m : MethodNode) : Bool := m.body.isNone

/-- What a function refers to. -/
structure FunctionRefs where
  space : String
  returnType : Option String
  thrown : List String
  parameterTypes : List String
  deriving DecidableEq

structure FunctionNode where
  id : NodeId
  name : String
  cached : Bool := false
  location : Location
  refs : FunctionRefs
  params : List Param
  body : List Stmt
  fingerprint : String

/-- What a property refers to. -/
structure PropertyRefs where
  space : String
  declaringType : String
  typeName : Option String
  deriving DecidableEq

structure PropertyNode where
  id : NodeId
  name : String
  modifiers : Modifiers
  cached : Bool := false
  location : Location
  refs : PropertyRefs

/-- A node names the nodes that it refers to and holds none of them; the names are looked up when
they are needed, so their targets may be declared later, in another file, or nowhere. -/
inductive Node where
  | space (node : NamespaceNode)
  | type (node : TypeNode)
  | method (node : MethodNode)
  | function (node : FunctionNode)
  | property (node : PropertyNode)

namespace Node

def id : Node → NodeId
  | space n => n.id
  | type n => n.id
  | method n => n.id
  | function n => n.id
  | property n => n.id

def name : Node → String
  | space n => n.name
  | type n => n.name
  | method n => n.name
  | function n => n.name
  | property n => n.name

def kind : Node → NodeKind
  | space _ => .space
  | type n => n.kind.nodeKind
  | method _ => .method
  | function _ => .function
  | property _ => .property

def isUserDefined : Node → Bool
  | space n => n.userDefined
  | type n => n.userDefined
  | _ => true

def isCached : Node → Bool
  | space n => n.cached
  | type n => n.cached
  | method n => n.cached
  | function n => n.cached
  | property n => n.cached

def withCached (cached : Bool) : Node → Node
  | space n => .space { n with cached }
  | type n => .type { n with cached }
  | method n => .method { n with cached }
  | function n => .function { n with cached }
  | property n => .property { n with cached }

def location? : Node → Option Location
  | space n => n.location
  | type n => n.location
  | method n => some n.location
  | function n => some n.location
  | property n => some n.location

def type? : Node → Option TypeNode
  | type n => some n
  | _ => none

@[simp] theorem id_withCached (n : Node) (cached : Bool) : (n.withCached cached).id = n.id := by
  cases n <;> rfl

end Node

end DesignMetrics
