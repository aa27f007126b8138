import DesignMetrics.Model.Unit
import DesignMetrics.Syntax.Fingerprint

/-!
Nodes and units written as JSON. A node is an object whose first field says what it is. Whether a
node comes from the cache is not written.
-/

namespace DesignMetrics

open Json (ofOption ofList ofWord)

def NodeId.toJson (id : NodeId) : Json := .string id.text

def Location.toJson (l : Location) : Json :=
  .object [("file", .string l.file), ("start_line", ofWord l.startLine), ("end_line", ofWord l.endLine)]

def TypeKind.toJson : TypeKind → Json
  | .classType => .string "Class"
  | .interfaceType => .string "Interface"

def TypeRefs.toJson (r : TypeRefs) : Json :=
  .object
    [("namespace", .string r.space), ("parent", ofOption .string r.parent),
      ("interfaces", ofList .string r.interfaces)]

def MethodRefs.toJson (r : MethodRefs) : Json :=
  .object
    [("namespace", .string r.space), ("declaring_type", .string r.declaringType),
      ("return_type", ofOption .string r.returnType), ("thrown", ofList .string r.thrown),
      ("parameter_types", ofList .string r.parameterTypes)]

def FunctionRefs.toJson (r : FunctionRefs) : Json :=
  .object
    [("namespace", .string r.space), ("return_type", ofOption .string r.returnType),
      ("thrown", ofList .string r.thrown), ("parameter_types", ofList .string r.parameterTypes)]

def PropertyRefs.toJson (r : PropertyRefs) : Json :=
  .object
    [("namespace", .string r.space), ("declaring_type", .string r.declaringType),
      ("type_name", ofOption .string r.typeName)]

def Node.toFields : Node → List (String × Json)
  | .space n =>
    [("node", .string "namespace"), ("id", n.id.toJson), ("name", .string n.name),
      ("user_defined", .bool n.userDefined), ("location", ofOption Location.toJson n.location)]
  | .type n =>
    [("node", .string "type"), ("id", n.id.toJson), ("name", .string n.name),
      ("kind", n.kind.toJson), ("modifiers", n.modifiers.toJson),
      ("user_defined", .bool n.userDefined), ("location", ofOption Location.toJson n.location),
      ("refs", n.refs.toJson), ("members", ofList NodeId.toJson n.members),
      ("constants", ofList .string n.constants)]
  | .method n =>
    [("node", .string "method"), ("id", n.id.toJson), ("name", .string n.name),
      ("modifiers", n.modifiers.toJson), ("location", n.location.toJson), ("refs", n.refs.toJson),
      ("params", .array (Param.listToJson n.params)), ("body", Stmt.bodyToJson n.body),
      ("fingerprint", .string n.fingerprint)]
  | .function n =>
    [("node", .string "function"), ("id", n.id.toJson), ("name", .string n.name),
      ("location", n.location.toJson), ("refs", n.refs.toJson),
      ("params", .array (Param.listToJson n.params)), ("body", .array (Stmt.listToJson n.body)),
      ("fingerprint", .string n.fingerprint)]
  | .property n =>
    [("node", .string "property"), ("id", n.id.toJson), ("name", .string n.name),
      ("modifiers", n.modifiers.toJson), ("location", n.location.toJson), ("refs", n.refs.toJson)]

def Node.toJson (n : Node) : Json := .object n.toFields

def CompilationUnit.toJson (u : CompilationUnit) : Json :=
  .object
    [("path", .string u.path), ("fingerprint", .string u.fingerprint),
      ("statements", .array (Stmt.listToJson u.statements)),
      ("declared", ofList NodeId.toJson u.declared), ("shadowed", ofList NodeId.toJson u.shadowed)]

def Snapshot.toJson (s : Snapshot) : Json :=
  .object [("unit", s.unit.toJson), ("nodes", ofList Node.toJson s.nodes)]

end DesignMetrics
