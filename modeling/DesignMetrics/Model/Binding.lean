import DesignMetrics.Model.Unit
import DesignMetrics.Syntax.Fingerprint

/-!
Binding: every declaration of a file becomes a node of the registry, and a marker takes its place
among the statements.
-/

namespace DesignMetrics

/-- What binding a file has done so far. -/
structure Bindings where
  registry : Registry
  declared : List NodeId := []
  shadowed : List NodeId := []

abbrev Bind (α : Type) := StateM Bindings α

namespace Binding

/-- The class or interface whose members are bound. -/
structure TypeScope where
  name : String
  parent : Option String

def typeName? (scope : Option TypeScope) : TypeRef → Option String
  | .named name => some name
  | .selfType | .staticType => scope.map TypeScope.name
  | .parentType => scope.bind TypeScope.parent
  | .scalar _ => none

def parameterTypes (scope : Option TypeScope) (params : List Param) : List String :=
  (params.filterMap Param.typeHint).filterMap (typeName? scope)

def memberId? (typeName : String) : Member → Option NodeId
  | .method m => some (.method typeName m.name)
  | .property p => some (.property typeName p.name)
  | .constant _ => none

def isRepeated (seen : List NodeId) (id : NodeId) : Member → Bool
  | .property _ => seen.contains id
  | _ => seen.any fun s => Text.sameFolded s.text id.text

def memberIdsFrom (typeName : String) (seen : List NodeId) : List Member → List NodeId
  | [] => seen
  | m :: rest =>
    match memberId? typeName m with
    | some id =>
      memberIdsFrom typeName (if isRepeated seen id m then seen else seen ++ [id]) rest
    | none => memberIdsFrom typeName seen rest

def memberIds (typeName : String) (members : List Member) : List NodeId :=
  memberIdsFrom typeName [] members

def constantName? : Member → Option String
  | .constant c => some c.name
  | _ => none

def constantNames (members : List Member) : List String := members.filterMap constantName?

def classNode (path : String) (d : ClassDecl) : TypeNode :=
  let (space, short) := splitQualified d.name
  { id := .classType d.name, name := short, kind := .classType, modifiers := d.modifiers
    userDefined := true, location := some (.ofSpan path d.span)
    refs := ⟨space, d.parent, d.interfaces⟩, members := memberIds d.name d.members
    constants := constantNames d.members }

def interfaceNode (path : String) (d : InterfaceDecl) : TypeNode :=
  let (space, short) := splitQualified d.name
  { id := .interfaceType d.name, name := short, kind := .interfaceType, modifiers := .isAbstract
    userDefined := true, location := some (.ofSpan path d.span)
    refs := ⟨space, none, d.parents⟩, members := memberIds d.name d.members
    constants := constantNames d.members }

def methodNode (path : String) (scope : TypeScope) (d : MethodDecl) : MethodNode :=
  { id := .method scope.name d.name, name := d.name, modifiers := d.modifiers
    location := .ofSpan path d.span
    refs := { space := (splitQualified scope.name).1, declaringType := scope.name
              returnType := d.returnType.bind (typeName? scope)
              thrown := d.throws.filterMap (typeName? scope)
              parameterTypes := parameterTypes scope d.params }
    params := d.params, body := none, fingerprint := d.fingerprint }

def propertyNode (path : String) (scope : TypeScope) (d : PropertyDecl) : PropertyNode :=
  { id := .property scope.name d.name, name := d.name, modifiers := d.modifiers
    location := .ofSpan path d.span
    refs := ⟨(splitQualified scope.name).1, scope.name, d.typeHint.bind (typeName? scope)⟩ }

def functionNode (path : String) (d : FunctionDecl) : FunctionNode :=
  { id := .function d.name, name := d.name, location := .ofSpan path d.span
    refs := { space := (splitQualified d.name).1, returnType := d.returnType.bind (typeName? none)
              thrown := d.throws.filterMap (typeName? none)
              parameterTypes := parameterTypes none d.params }
    params := d.params, body := [], fingerprint := d.fingerprint }

/-- The first declaration of an identifier wins; a later one stays unbound and is recorded as
shadowed. -/
def declare (node : Node) : Bind Bool := do
  let b ← get
  if b.registry.isDeclared node.id then
    set { b with shadowed := b.shadowed ++ [node.id] }
    return false
  else
    set { b with registry := b.registry.register node, declared := b.declared ++ [node.id] }
    return true

/-- Namespaces may be opened any number of times. -/
def openNamespace (path : String) (name : Option String) (span : Span) : Bind Unit := do
  match name with
  | none => return
  | some name =>
    if name.isEmpty then return
    let node : NamespaceNode :=
      { id := .space name, name, userDefined := true, location := some (.ofSpan path span) }
    modify fun b =>
      { b with registry := b.registry.register (.space node), declared := b.declared ++ [node.id] }

def setMethodBody (id : NodeId) (body : List Stmt) : Bind Unit :=
  modify fun b =>
    match b.registry.node? id with
    | some (.method m) => { b with registry := b.registry.register (.method { m with body := some body }) }
    | _ => b

def setFunctionBody (id : NodeId) (body : List Stmt) : Bind Unit :=
  modify fun b =>
    match b.registry.node? id with
    | some (.function f) => { b with registry := b.registry.register (.function { f with body }) }
    | _ => b

mutual

/-- A node is registered before its members and its body are bound. Declarations inside closures are
not bound. -/
def bindStmt (path : String) : Stmt → Bind Stmt
  | .inNamespace ⟨name, body, span⟩ => do
    openNamespace path name span
    return .inNamespace ⟨name, ← bindStmts path body, span⟩
  | .classDecl ⟨name, modifiers, parent, interfaces, members, span⟩ => do
    let node := classNode path ⟨name, modifiers, parent, interfaces, members, span⟩
    if ← declare (.type node) then
      bindMembers path ⟨name, parent⟩ members
      return .declared node.id
    else return .classDecl ⟨name, modifiers, parent, interfaces, members, span⟩
  | .interfaceDecl ⟨name, parents, members, span⟩ => do
    let node := interfaceNode path ⟨name, parents, members, span⟩
    if ← declare (.type node) then
      bindMembers path ⟨name, none⟩ members
      return .declared node.id
    else return .interfaceDecl ⟨name, parents, members, span⟩
  | .functionDecl ⟨name, params, returnType, throws, body, span⟩ => do
    let node := functionNode path ⟨name, params, returnType, throws, body, span⟩
    if ← declare (.function node) then
      setFunctionBody node.id (← bindStmts path body)
      return .declared node.id
    else return .functionDecl ⟨name, params, returnType, throws, body, span⟩
  | .ifElse cond body elseIfs otherwise => do
    let body ← bindStmts path body
    let elseIfs ← bindElseIfs path elseIfs
    return .ifElse cond body elseIfs (← bindBody path otherwise)
  | .whileLoop cond body => return .whileLoop cond (← bindStmts path body)
  | .doWhile body cond => return .doWhile (← bindStmts path body) cond
  | .forLoop init cond step body => return .forLoop init cond step (← bindStmts path body)
  | .forEach subject key value body => return .forEach subject key value (← bindStmts path body)
  | .switch subject cases => return .switch subject (← bindCases path cases)
  | .tryCatch body catches cleanup => do
    let body ← bindStmts path body
    let catches ← bindCatches path catches
    return .tryCatch body catches (← bindBody path cleanup)
  | .block body => return .block (← bindStmts path body)
  | s => return s

def bindStmts (path : String) : List Stmt → Bind (List Stmt)
  | [] => return []
  | s :: rest => do
    let s ← bindStmt path s
    return s :: (← bindStmts path rest)

def bindBody (path : String) : Option (List Stmt) → Bind (Option (List Stmt))
  | none => return none
  | some body => return some (← bindStmts path body)

def bindElseIfs (path : String) : List ElseIf → Bind (List ElseIf)
  | [] => return []
  | ⟨cond, body⟩ :: rest => do
    let body ← bindStmts path body
    return ⟨cond, body⟩ :: (← bindElseIfs path rest)

def bindCases (path : String) : List Case → Bind (List Case)
  | [] => return []
  | ⟨test, body⟩ :: rest => do
    let body ← bindStmts path body
    return ⟨test, body⟩ :: (← bindCases path rest)

def bindCatches (path : String) : List Catch → Bind (List Catch)
  | [] => return []
  | ⟨types, binder, body⟩ :: rest => do
    let body ← bindStmts path body
    return ⟨types, binder, body⟩ :: (← bindCatches path rest)

def bindMembers (path : String) (scope : TypeScope) : List Member → Bind Unit
  | [] => return
  | m :: rest => do
    bindMember path scope m
    bindMembers path scope rest

def bindMember (path : String) (scope : TypeScope) : Member → Bind Unit
  | .method ⟨name, modifiers, params, returnType, throws, body, span⟩ => do
    let node := methodNode path scope ⟨name, modifiers, params, returnType, throws, body, span⟩
    if ← declare (.method node) then
      match ← bindBody path body with
      | some body => setMethodBody node.id body
      | none => return
  | .property decl => discard (declare (.property (propertyNode path scope decl)))
  | .constant _ => return

end

end Binding

namespace SourceFile

def bind (file : SourceFile) (fingerprint : String) (r : Registry) : CompilationUnit × Registry :=
  let (statements, b) := (Binding.bindStmts file.path file.statements).run { registry := r }
  ({ path := file.path, fingerprint, statements, declared := b.declared, shadowed := b.shadowed },
    b.registry)

end SourceFile

end DesignMetrics
