import DesignMetrics.Lowering.Expression

/-!
Declarations: classes, interfaces and their members, functions, and the imports of `use`.
-/

namespace DesignMetrics.Lowering

def method (v : View) : Lower MethodDecl := do
  let cs := v.children
  let params ← params cs
  let scope ← get
  let body ←
    match inField? cs "body" with
    | some b => pure (some (← blockOf b))
    | none => pure none
  return { name := fieldText cs "name", modifiers := memberModifiersOf cs, params
           returnType := returnType? scope cs v.doc, throws := thrownTypes scope v.doc
           body, span := v.span }

def propertyDefault? (element : View) : Option View :=
  (inField? element.children "default_value").or do
    let init ← (phrases element.children).find? fun c => c.kind == "property_initializer"
    (phrases init.children).head?

def propertyName (element : View) : String :=
  let name := (inField? element.children "name").or
    ((phrases element.children).find? fun c => c.kind == "variable_name")
  (name.map fun n => withoutDollar n.text).getD ""

def property (modifiers : Modifiers) (typeHint : Option TypeRef) (element : View) :
    Lower Member := do
  let default ←
    match propertyDefault? element with
    | some d => pure (some (← d.expr))
    | none => pure none
  return .property { name := propertyName element, modifiers, typeHint, default, span := element.span }

def properties (v : View) : Lower (List Member) := do
  let scope ← get
  let hint := (fieldType? scope v.children "type").or (v.doc.varType.bind scope.resolveDocType)
  let elements := (phrases v.children).filter fun c => c.kind == "property_element"
  inOrder (elements.map (property (memberModifiersOf v.children) hint))

def constant (element : View) : Lower Member := do
  let parts := phrases element.children
  let name := (parts.head?.map View.text).getD ""
  return .constant { name, value := ← exprOf parts[1]?, span := element.span }

def constants (v : View) : Lower (List Member) :=
  inOrder (((phrases v.children).filter fun c => c.kind == "const_element").map constant)

def membersOf (v : View) : Lower (List Member) := do
  match v.kind with
  | "method_declaration" => return [.method (← method v)]
  | "property_declaration" => properties v
  | "const_declaration" => constants v
  | _ => return []

def members (children : List View) : Lower (List Member) := do
  match inField? children "body" with
  | some body => return (← inOrder ((phrases body.children).map membersOf)).flatten
  | none => return []

def lastClause? (children : List View) (kind : String) : Option View :=
  ((phrases children).filter fun c => c.kind == kind).getLast?

def classDecl (label : Label) (children : List View) : Lower ClassDecl := do
  let scope ← get
  let members ← members children
  return { name := scope.qualify (fieldText children "name")
           modifiers := modifiersOf children
           parent := (lastClause? children "base_clause").bind fun c => (nameList scope c).head?
           interfaces :=
             ((lastClause? children "class_interface_clause").map (nameList scope)).getD []
           members, span := label.span }

def interfaceDecl (label : Label) (children : List View) : Lower InterfaceDecl := do
  let scope ← get
  let members ← members children
  let clause := (phrases children).find? fun c => c.kind == "base_clause"
  return { name := scope.qualify (fieldText children "name")
           parents := (clause.map (nameList scope)).getD []
           members, span := label.span }

def functionDecl (label : Label) (tags : DocTags) (children : List View) : Lower FunctionDecl := do
  let name := (← get).qualify (fieldText children "name")
  let params ← params children
  let scope ← get
  let body ← bodyOf children "body"
  return { name, params, returnType := returnType? scope children tags
           throws := thrownTypes scope tags, body, span := label.span }

def importOf? (clause : View) : Option (String × Option String) :=
  let cs := clause.children
  let rename :=
    ((phrases cs).filter fun c => c.kind == "namespace_aliasing_clause").getLast?
  let short :=
    match rename with
    | some r => (phrases r.children).getLast?.map View.text
    | none => fieldText? cs "alias"
  let target := (phrases (withoutField cs "alias")).find? fun c =>
    c.isOneOf ["name", "qualified_name", "namespace_name"]
  target.map fun t => (t.text, short)

def addImport (group : Option String) (clause : View) : Lower Unit := do
  match importOf? clause with
  | none => return
  | some (target, short) =>
    let full :=
      match group with
      | some g => g ++ "\\" ++ Text.trimStart (· == '\\') target
      | none => target
    modify fun scope => scope.addAlias full short

def addImports : Option String → List View → Lower Unit
  | _, [] => return
  | group, v :: rest => do
    match v.kind with
    | "namespace_name" | "qualified_name" | "name" =>
      addImports (group.or (some (Text.trimBoth (· == '\\') v.text))) rest
    | "namespace_use_clause" =>
      addImport none v
      addImports group rest
    | "namespace_use_group" =>
      let clauses := (phrases v.children).filter fun c =>
        c.isOneOf ["namespace_use_clause", "namespace_use_group_clause"]
      discard (inOrder (clauses.map (addImport group)))
      addImports group rest
    | _ => addImports group rest

def useDecl (children : List View) : Lower Unit := do
  if children.any fun c => c.isOneOf ["function", "const"] then return
  addImports none (phrases children)

end DesignMetrics.Lowering
