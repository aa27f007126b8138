import DesignMetrics.Model.Unit
import DesignMetrics.Syntax.Decoding

/-!
Nodes and units read from JSON, the inverse of their encoding. What a node is has to be known before
its fields can be read, so a node must be well formed throughout, in the parts that are passed over
too, and the alternatives in it may be written more freely than those in a unit.
-/

namespace DesignMetrics

open Json (Leeway Reads string? bool? word? list? fields? choice? unit?)

def Location.ofJson? : Reads Location := fun j => do
  match ← fields? ["file", "start_line", "end_line"] j with
  | [file, first, last] =>
    return ⟨← file.required string?, ← first.required word?, ← last.required word?⟩
  | _ => none

def TypeKind.ofJson? : Reads TypeKind := fun j => do
  let (name, j) ← choice? j
  unit? .ofTagged j
  match name with
  | "Class" => return .classType
  | "Interface" => return .interfaceType
  | _ => none

def TypeRefs.ofJson? : Reads TypeRefs := fun j => do
  match ← fields? ["namespace", "parent", "interfaces"] j with
  | [space, parent, interfaces] =>
    return { space := ← space.required string?
             parent := ← parent.optional string?
             interfaces := ← interfaces.required (list? string?) }
  | _ => none

def MethodRefs.ofJson? : Reads MethodRefs := fun j => do
  match ← fields? ["namespace", "declaring_type", "return_type", "thrown", "parameter_types"] j with
  | [space, declaringType, returnType, thrown, parameterTypes] =>
    return { space := ← space.required string?
             declaringType := ← declaringType.required string?
             returnType := ← returnType.optional string?
             thrown := ← thrown.required (list? string?)
             parameterTypes := ← parameterTypes.required (list? string?) }
  | _ => none

def FunctionRefs.ofJson? : Reads FunctionRefs := fun j => do
  match ← fields? ["namespace", "return_type", "thrown", "parameter_types"] j with
  | [space, returnType, thrown, parameterTypes] =>
    return { space := ← space.required string?
             returnType := ← returnType.optional string?
             thrown := ← thrown.required (list? string?)
             parameterTypes := ← parameterTypes.required (list? string?) }
  | _ => none

def PropertyRefs.ofJson? : Reads PropertyRefs := fun j => do
  match ← fields? ["namespace", "declaring_type", "type_name"] j with
  | [space, declaringType, typeName] =>
    return { space := ← space.required string?
             declaringType := ← declaringType.required string?
             typeName := ← typeName.optional string? }
  | _ => none

def NamespaceNode.ofJson? : Reads NamespaceNode := fun j => do
  match ← fields? ["id", "name", "user_defined", "location"] j with
  | [id, name, userDefined, location] =>
    return { id := ← id.required NodeId.ofJson?
             name := ← name.required string?
             userDefined := ← userDefined.required bool?
             location := ← location.optional Location.ofJson? }
  | _ => none

def TypeNode.ofJson? : Reads TypeNode := fun j => do
  let names := ["id", "name", "kind", "modifiers", "user_defined", "location", "refs", "members",
    "constants"]
  match ← fields? names j with
  | [id, name, kind, modifiers, userDefined, location, refs, members, constants] =>
    return { id := ← id.required NodeId.ofJson?
             name := ← name.required string?
             kind := ← kind.required TypeKind.ofJson?
             modifiers := ← modifiers.required Modifiers.ofJson?
             userDefined := ← userDefined.required bool?
             location := ← location.optional Location.ofJson?
             refs := ← refs.required TypeRefs.ofJson?
             members := ← members.required (list? NodeId.ofJson?)
             constants := ← constants.required (list? string?) }
  | _ => none

def MethodNode.ofJson? : Reads MethodNode := fun j => do
  let names := ["id", "name", "modifiers", "location", "refs", "params", "body", "fingerprint"]
  match ← fields? names j with
  | [id, name, modifiers, location, refs, params, body, fingerprint] =>
    return { id := ← id.required NodeId.ofJson?
             name := ← name.required string?
             modifiers := ← modifiers.required Modifiers.ofJson?
             location := ← location.required Location.ofJson?
             refs := ← refs.required MethodRefs.ofJson?
             params := ← params.required (list? (Param.ofJson? .ofTagged))
             body := ← body.optional (list? (Stmt.ofJson? .ofTagged))
             fingerprint := ← fingerprint.required string? }
  | _ => none

def FunctionNode.ofJson? : Reads FunctionNode := fun j => do
  match ← fields? ["id", "name", "location", "refs", "params", "body", "fingerprint"] j with
  | [id, name, location, refs, params, body, fingerprint] =>
    return { id := ← id.required NodeId.ofJson?
             name := ← name.required string?
             location := ← location.required Location.ofJson?
             refs := ← refs.required FunctionRefs.ofJson?
             params := ← params.required (list? (Param.ofJson? .ofTagged))
             body := ← body.required (list? (Stmt.ofJson? .ofTagged))
             fingerprint := ← fingerprint.required string? }
  | _ => none

def PropertyNode.ofJson? : Reads PropertyNode := fun j => do
  match ← fields? ["id", "name", "modifiers", "location", "refs"] j with
  | [id, name, modifiers, location, refs] =>
    return { id := ← id.required NodeId.ofJson?
             name := ← name.required string?
             modifiers := ← modifiers.required Modifiers.ofJson?
             location := ← location.required Location.ofJson?
             refs := ← refs.required PropertyRefs.ofJson? }
  | _ => none

def Node.tag? : Reads (String × Json)
  | .object fields =>
    match fields.filter fun f => f.1 == "node" with
    | [(_, .string tag)] => some (tag, .object (fields.filter fun f => f.1 != "node"))
    | _ => none
  | .array (.string tag :: items) => some (tag, .array items)
  | _ => none

def Node.ofJson? : Reads Node := fun j => do
  guard j.isSound
  match ← Node.tag? j with
  | ("namespace", j) => return .space (← NamespaceNode.ofJson? j)
  | ("type", j) => return .type (← TypeNode.ofJson? j)
  | ("method", j) => return .method (← MethodNode.ofJson? j)
  | ("function", j) => return .function (← FunctionNode.ofJson? j)
  | ("property", j) => return .property (← PropertyNode.ofJson? j)
  | _ => none

def CompilationUnit.ofJson? (w : Leeway) : Reads CompilationUnit := fun j => do
  match ← fields? ["path", "fingerprint", "statements", "declared", "shadowed"] j with
  | [path, fingerprint, statements, declared, shadowed] =>
    return { path := ← path.required string?
             fingerprint := ← fingerprint.required string?
             statements := ← statements.required (list? (Stmt.ofJson? w))
             declared := ← declared.required (list? NodeId.ofJson?)
             shadowed := ← shadowed.defaulted [] (list? NodeId.ofJson?) }
  | _ => none

def Snapshot.ofJson? (w : Leeway) : Reads Snapshot := fun j => do
  match ← fields? ["unit", "nodes"] j with
  | [unit, nodes] =>
    return ⟨← unit.required (CompilationUnit.ofJson? w), ← nodes.required (list? Node.ofJson?)⟩
  | _ => none

end DesignMetrics
