import DesignMetrics.Lowering.View

/-!
Types, modifiers and names of declarations. They are read in the scope in effect and do not change
it.
-/

namespace DesignMetrics.Lowering

mutual

def typeHint? (scope : NameScope) : View → Option TypeRef
  | .mk label _ _ _ _ children =>
    match label.head.kind with
    | "union_type" | "intersection_type" | "disjunctive_normal_form_type" =>
      ((typeHints scope children).filterMap id).find? (· ≠ .scalar "null")
    | "optional_type" | "type" => (typeHints scope children).head?.join
    | _ =>
      let written := Text.trim label.text
      if written.isEmpty then none else some (scope.resolveType written)

def typeHints (scope : NameScope) : List View → List (Option TypeRef)
  | [] => []
  | v :: rest =>
    if v.isPhrase then typeHint? scope v :: typeHints scope rest else typeHints scope rest

end

def typeList (scope : NameScope) (v : View) : List TypeRef :=
  if v.isOneOf ["type_list", "union_type"] then (typeHints scope v.children).filterMap id
  else (typeHint? scope v).toList

def fieldType? (scope : NameScope) (children : List View) (field : String) : Option TypeRef :=
  (inField? children field).bind (typeHint? scope)

def returnType? (scope : NameScope) (children : List View) (tags : DocTags) : Option TypeRef :=
  (fieldType? scope children "return_type").or (tags.returnType.bind scope.resolveDocType)

def thrownTypes (scope : NameScope) (tags : DocTags) : List TypeRef :=
  tags.throws.filterMap scope.resolveDocType

def modifiersOf (children : List View) : Modifiers :=
  let written := children.filter fun c => "_modifier".toList.isSuffixOf c.kind.toList
  (written.filterMap fun c => Modifiers.ofKeyword? c.text).foldl Modifiers.union Modifiers.none

def memberModifiersOf (children : List View) : Modifiers :=
  let m := modifiersOf children
  if m.contains .isPrivate || m.contains .isProtected then m else m.union .isPublic

def nameList (scope : NameScope) (clause : View) : List String :=
  ((phrases clause.children).filter fun n => n.isOneOf ["name", "qualified_name"]).map fun n =>
    scope.resolveName n.text

end DesignMetrics.Lowering
