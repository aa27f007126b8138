import DesignMetrics.Yaml.Document

/-!
Reading typed values out of YAML documents. Aliases are followed.
-/

namespace DesignMetrics.Yaml

abbrev Reads (α : Type) := Node Nat → Node Nat → Option α

/-- A text is what a scalar says, whatever it looks like. -/
def text? : Reads String := fun document node =>
  match document.follow node with
  | .scalar _ _ text => some text
  | _ => none

def standardTag (name : String) : List UInt8 := ("tag:yaml.org,2002:" ++ name).toUTF8.toList

def boolOf? : String → Option Bool
  | "true" | "True" | "TRUE" => some true
  | "false" | "False" | "FALSE" => some false
  | _ => none

def bool? : Reads Bool := fun document node =>
  match document.follow node with
  | .scalar _ .plain text => boolOf? text
  | .scalar p .literal text => if p.tag = some (standardTag "bool") then boolOf? text else none
  | _ => none

def isNull (text : String) : Bool :=
  text = "null" || text = "Null" || text = "NULL" || text = "~"

def optional? {α : Type} (read : Reads α) : Reads (Option α) := fun document node =>
  match document.follow node with
  | .scalar { tag := none, .. } .plain text =>
    if text.isEmpty || isNull text then some none else (read document node).map some
  | .scalar { tag := some tag, .. } .plain text =>
    if tag = standardTag "null" then if isNull text then some none else none
    else (read document node).map some
  | _ => (read document node).map some

/-- A list or a record that is not written at all is empty. -/
def isUnwritten : Node Nat → Bool
  | .scalar _ .plain text => text.isEmpty
  | _ => false

def list? {α : Type} (read : Reads α) : Reads (List α) := fun document node =>
  match document.follow node with
  | .sequence _ items => items.mapM (read document)
  | other => if isUnwritten other then some [] else none

def localName? (tag : List UInt8) : Option String :=
  match tag with
  | 33 :: [] => some "!"
  | 33 :: rest => String.fromUTF8? ⟨rest.toArray⟩
  | _ => none

def name? : Reads String := fun document node =>
  match document.follow node with
  | .scalar p style text =>
    match p.tag.bind localName? with
    | some name =>
      if style = .plain ∧ (text.isEmpty ∨ isNull text) then some name else none
    | none => some text
  | _ => none

def entries? : Reads (List (String × Node Nat)) := fun document node =>
  match document.follow node with
  | .mapping _ entries => entries.mapM fun (key, value) => (text? document key).map (·, value)
  | other => if isUnwritten other then some [] else none

def field? {α : Type} (name : String) (fallback : α) (read : Reads α) (document : Node Nat)
    (entries : List (String × Node Nat)) : Option α :=
  match entries.filter fun e => e.1 == name with
  | [] => some fallback
  | [(_, node)] => read document node
  | _ => none

end DesignMetrics.Yaml
