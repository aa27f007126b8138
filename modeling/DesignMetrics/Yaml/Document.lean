import DesignMetrics.Yaml.Node
import DesignMetrics.Yaml.Tokens

/-!
From tokens to documents. Every function takes a number of steps, which no call goes beyond that is
made for the tokens of a text, and gives the node and the tokens behind it; it gives nothing if the
tokens do not make up a document.
-/

namespace DesignMetrics.Yaml

abbrev Handles := List (String × List UInt8)

namespace Handles

def standard : Handles :=
  [("!", "!".toUTF8.toList), ("!!", "tag:yaml.org,2002:".toUTF8.toList)]

def tag? (handles : Handles) (handle : String) (suffix : List UInt8) : Option (List UInt8) :=
  if handle.isEmpty then some suffix
  else (handles.find? fun h => h.1 == handle).map fun h => h.2 ++ suffix

end Handles

namespace Node

def properties? (handles : Handles) :
    List Token → Option (Properties String × List Token)
  | .anchor name :: .tag handle suffix :: rest => do
    return ({ anchor := name, tag := ← handles.tag? handle suffix }, rest)
  | .tag handle suffix :: .anchor name :: rest => do
    return ({ anchor := name, tag := ← handles.tag? handle suffix }, rest)
  | .anchor name :: rest => some ({ anchor := name }, rest)
  | .tag handle suffix :: rest => do return ({ tag := ← handles.tag? handle suffix }, rest)
  | rest => some ({}, rest)

def bare? (p : Properties String) (tokens : List Token) : Option (Node String × List Token) :=
  if p.anchor.isSome || p.tag.isSome then some (.scalar p .plain "", tokens) else none

mutual

def node? (handles : Handles) (block indentless : Bool) :
    Nat → List Token → Option (Node String × List Token)
  | 0, _ => none
  | _ + 1, .reference name :: rest => some (.reference name, rest)
  | n + 1, tokens => do
    let (p, tokens) ← properties? handles tokens
    match tokens with
    | .blockEntry :: rest =>
      if indentless then
        let (items, rest) ← looseItems? handles n (.blockEntry :: rest)
        return (.sequence p items, rest)
      else bare? p tokens
    | .scalar style text :: rest => return (.scalar p style text, rest)
    | .flowSequenceStart :: rest =>
      let (items, rest) ← flowItems? handles n true rest
      return (.sequence p items, rest)
    | .flowMappingStart :: rest =>
      let (entries, rest) ← flowEntries? handles n true rest
      return (.mapping p entries, rest)
    | .blockSequenceStart :: rest =>
      if block then
        let (items, rest) ← blockItems? handles n rest
        return (.sequence p items, rest)
      else bare? p tokens
    | .blockMappingStart :: rest =>
      if block then
        let (entries, rest) ← blockEntries? handles n rest
        return (.mapping p entries, rest)
      else bare? p tokens
    | tokens => bare? p tokens

def orEmpty? (handles : Handles) (block indentless : Bool) (ends : List Token) :
    Nat → List Token → Option (Node String × List Token)
  | 0, _ => none
  | n + 1, tokens =>
    if tokens.head?.any ends.contains then some (.empty, tokens)
    else node? handles block indentless n tokens

def blockItems? (handles : Handles) : Nat → List Token → Option (List (Node String) × List Token)
  | 0, _ => none
  | n + 1, .blockEntry :: rest => do
    let (item, rest) ← orEmpty? handles true false [.blockEntry, .blockEnd] n rest
    let (items, rest) ← blockItems? handles n rest
    return (item :: items, rest)
  | _ + 1, .blockEnd :: rest => some ([], rest)
  | _ + 1, _ => none

def looseItems? (handles : Handles) : Nat → List Token → Option (List (Node String) × List Token)
  | 0, _ => none
  | n + 1, .blockEntry :: rest => do
    let ends : List Token := [.blockEntry, .key, .value, .blockEnd]
    let (item, rest) ← orEmpty? handles true false ends n rest
    let (items, rest) ← looseItems? handles n rest
    return (item :: items, rest)
  | _ + 1, rest => some ([], rest)

def blockEntries? (handles : Handles) :
    Nat → List Token → Option (List (Node String × Node String) × List Token)
  | 0, _ => none
  | n + 1, .key :: rest => do
    let ends : List Token := [.key, .value, .blockEnd]
    let (key, rest) ← orEmpty? handles true true ends n rest
    let (value, rest) ←
      match rest with
      | .value :: rest => orEmpty? handles true true ends n rest
      | rest => some (.empty, rest)
    let (entries, rest) ← blockEntries? handles n rest
    return ((key, value) :: entries, rest)
  | _ + 1, .blockEnd :: rest => some ([], rest)
  | _ + 1, _ => none

def flowItems? (handles : Handles) : Nat → Bool → List Token → Option (List (Node String) × List Token)
  | 0, _, _ => none
  | _ + 1, _, .flowSequenceEnd :: rest => some ([], rest)
  | n + 1, true, tokens => flowItem? handles n tokens
  | n + 1, false, .flowEntry :: rest =>
    match rest with
    | .flowSequenceEnd :: rest => some ([], rest)
    | rest => flowItem? handles n rest
  | _ + 1, false, _ => none

def flowItem? (handles : Handles) : Nat → List Token → Option (List (Node String) × List Token)
  | 0, _ => none
  | n + 1, .key :: rest => do
    let ends : List Token := [.flowEntry, .flowSequenceEnd]
    let (key, rest) ←
      match rest with
      | .value :: rest => some (.empty, rest)
      | .flowEntry :: rest => some (.empty, rest)
      | .flowSequenceEnd :: rest => some (.empty, rest)
      | rest => node? handles false false n rest
    let (value, rest) ←
      match rest with
      | .value :: rest => orEmpty? handles false false ends n rest
      | rest => some (.empty, rest)
    let (items, rest) ← flowItems? handles n false rest
    return (.mapping {} [(key, value)] :: items, rest)
  | n + 1, tokens => do
    let (item, rest) ← node? handles false false n tokens
    let (items, rest) ← flowItems? handles n false rest
    return (item :: items, rest)

def flowEntries? (handles : Handles) :
    Nat → Bool → List Token → Option (List (Node String × Node String) × List Token)
  | 0, _, _ => none
  | _ + 1, _, .flowMappingEnd :: rest => some ([], rest)
  | n + 1, true, tokens => flowPair? handles n tokens
  | n + 1, false, .flowEntry :: rest =>
    match rest with
    | .flowMappingEnd :: rest => some ([], rest)
    | rest => flowPair? handles n rest
  | _ + 1, false, _ => none

def flowPair? (handles : Handles) :
    Nat → List Token → Option (List (Node String × Node String) × List Token)
  | 0, _ => none
  | n + 1, .key :: rest => do
    let ends : List Token := [.flowEntry, .flowMappingEnd]
    let (key, rest) ← orEmpty? handles false false (.value :: ends) n rest
    let (value, rest) ←
      match rest with
      | .value :: rest => orEmpty? handles false false ends n rest
      | rest => some (.empty, rest)
    let (entries, rest) ← flowEntries? handles n false rest
    return ((key, value) :: entries, rest)
  | n + 1, tokens => do
    let (key, rest) ← node? handles false false n tokens
    let (entries, rest) ← flowEntries? handles n false rest
    return ((key, .empty) :: entries, rest)

end

end Node

namespace Document

def directives? : Bool → Handles → List Token → Option (Handles × List Token)
  | versioned, handles, .version major minor :: rest =>
    if versioned || major ≠ 1 || (minor ≠ 1 && minor ≠ 2) then none
    else directives? true handles rest
  | versioned, handles, .tagDirective handle expansion :: rest =>
    if handles.any fun h => h.1 == handle then none
    else directives? versioned (handles ++ [(handle, expansion)]) rest
  | _, handles, rest => some (handles ++ Handles.standard, rest)

def endsContent : Token → Bool
  | .version _ _ | .tagDirective _ _ | .documentStart | .documentEnd => true
  | _ => false

def content? (handles : Handles) (tokens : List Token) : Option (Node String × List Token) :=
  if tokens.head?.all endsContent then some (.empty, tokens)
  else Node.node? handles true false (4 * tokens.length + 4) tokens

def ofTokens? : List Token → Option (Option (Node String))
  | [] => some none
  | tokens => do
    let (node, rest) ←
      if tokens.head?.any (fun t => endsContent t && t != .documentEnd) then
        match ← directives? false [] tokens with
        | (handles, .documentStart :: rest) => content? handles rest
        | _ => none
      else Node.node? Handles.standard true false (4 * tokens.length + 4) tokens
    if (rest.dropWhile (· = .documentEnd)).isEmpty then return some node else none

def ofText? (text : String) : Option (Node Nat) := do
  match ← ofTokens? (← Token.ofText? text) with
  | none => return .empty
  | some node => return (← (node.numbered).run []).1

end Document

end DesignMetrics.Yaml
