import DesignMetrics.Yaml.Token

/-!
YAML documents as trees of nodes.
-/

namespace DesignMetrics.Yaml

/-- What is said about a node. -/
structure Properties (α : Type) where
  anchor : Option α := none
  tag : Option (List UInt8) := none

/-- A node may have an anchor, and a reference stands for the node with its anchor; `α` is what
anchors are called by, which is a name in the text and a number afterwards. -/
inductive Node (α : Type) where
  | reference (name : α)
  | scalar (properties : Properties α) (style : ScalarStyle) (text : String)
  | sequence (properties : Properties α) (items : List (Node α))
  | mapping (properties : Properties α) (entries : List (Node α × Node α))

namespace Node

def empty {α : Type} : Node α := .scalar {} .plain ""

abbrev Anchors := List (String × Nat)

def numberedProperties (p : Properties String) : StateT Anchors Option (Properties Nat) :=
  match p.anchor with
  | none => return { tag := p.tag }
  | some name => do
    let known ← get
    set ((name, known.length) :: known.filter fun k => k.1 != name)
    return { anchor := some known.length, tag := p.tag }

mutual

def numbered : Node String → StateT Anchors Option (Node Nat)
  | reference name => do
    match (← get).find? fun k => k.1 == name with
    | some k => return .reference k.2
    | none => failure
  | scalar p style text => do return .scalar (← numberedProperties p) style text
  | sequence p items => do return .sequence (← numberedProperties p) (← numberedItems items)
  | mapping p entries => do return .mapping (← numberedProperties p) (← numberedEntries entries)

def numberedItems : List (Node String) → StateT Anchors Option (List (Node Nat))
  | [] => pure []
  | item :: rest => do return (← numbered item) :: (← numberedItems rest)

def numberedEntries :
    List (Node String × Node String) → StateT Anchors Option (List (Node Nat × Node Nat))
  | [] => pure []
  | (key, value) :: rest => do
    return (← numbered key, ← numbered value) :: (← numberedEntries rest)

end

mutual

def anchored? (number : Nat) : Node Nat → Option (Node Nat)
  | reference _ => none
  | scalar p style text =>
    if p.anchor = some number then some (.scalar p style text) else none
  | sequence p items =>
    (anchoredItem? number items).or
      (if p.anchor = some number then some (.sequence p items) else none)
  | mapping p entries =>
    (anchoredPair? number entries).or
      (if p.anchor = some number then some (.mapping p entries) else none)

def anchoredItem? (number : Nat) : List (Node Nat) → Option (Node Nat)
  | [] => none
  | item :: rest => (anchoredItem? number rest).or (anchored? number item)

def anchoredPair? (number : Nat) : List (Node Nat × Node Nat) → Option (Node Nat)
  | [] => none
  | (key, value) :: rest =>
    ((anchoredPair? number rest).or (anchored? number value)).or (anchored? number key)

end

def follow (document : Node Nat) : Node Nat → Node Nat
  | reference number => (document.anchored? number).getD (.reference number)
  | node => node

end Node

end DesignMetrics.Yaml
