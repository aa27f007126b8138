import DesignMetrics.Yaml.Scalar

/-!
Reading what is said about a node and about a document: anchors, aliases, tags and directives.
Every function gives nothing if the text is wrong.
-/

namespace DesignMetrics.Yaml

def anchorName? (cur : Cursor) : Option (String × Cursor) :=
  let name := (cur.rest.drop 1).takeWhile isWord
  let cur := cur.skip (1 + name.length)
  let mayFollow (c : Char) : Bool :=
    c = '?' || c = ':' || c = ',' || c = ']' || c = '\x7d' || c = '%' || c = '@' || c = '\x60'
  if name.isEmpty || !(isGap cur.rest.head? || cur.rest.head?.any mayFollow) then none
  else some (String.ofList name, cur)

namespace Tag

def isUri (verbatim : Bool) (c : Char) : Bool :=
  isWord c || ";/?:@&=+$.%!~*'()".contains c || (verbatim && (c = ',' || c = '[' || c = ']'))

def octet? : List Char → Option (UInt8 × List Char)
  | '%' :: a :: b :: rest => do
    return ((16 * (← Digest.hexValue? a) + (← Digest.hexValue? b)).toUInt8, rest)
  | _ => none

def following? : Nat → List Char → Option (List UInt8 × List Char)
  | 0, rest => some ([], rest)
  | count + 1, rest => do
    let (octet, rest) ← octet? rest
    if octet &&& 0xC0 ≠ 0x80 then none
    else
      let (more, rest) ← following? count rest
      return (octet :: more, rest)

def followers? (octet : UInt8) : Option Nat :=
  if octet &&& 0x80 = 0 then some 0
  else if octet &&& 0xE0 = 0xC0 then some 1
  else if octet &&& 0xF0 = 0xE0 then some 2
  else if octet &&& 0xF8 = 0xF0 then some 3
  else none

def uri? (verbatim : Bool) : Nat → List Char → Option (List UInt8 × List Char)
  | 0, rest => some ([], rest)
  | steps + 1, rest =>
    match rest with
    | [] => some ([], [])
    | c :: more =>
      if !isUri verbatim c then some ([], rest)
      else if c = '%' then do
        let (octet, rest) ← octet? rest
        let (octets, rest) ← following? (← followers? octet) rest
        let (bytes, rest) ← uri? verbatim steps rest
        return (octet :: octets ++ bytes, rest)
      else do
        let (bytes, rest) ← uri? verbatim steps more
        return (c.toNat.toUInt8 :: bytes, rest)

def read? (verbatim : Bool) (cur : Cursor) : Option (List UInt8 × Cursor) := do
  let (bytes, rest) ← uri? verbatim cur.left cur.rest
  return (bytes, cur.skip (cur.left - rest.length))

def handle? (cur : Cursor) : Option (String × Cursor) :=
  if cur.isAt '!' then
    let word := (cur.rest.drop 1).takeWhile isWord
    let text := '!' :: word ++ (if cur.peek (1 + word.length) = some '!' then ['!'] else [])
    some (String.ofList text, cur.skip text.length)
  else none

def isHandle (text : String) : Bool :=
  text.length > 1 && text.startsWith "!" && text.endsWith "!"

def meant (bytes : List UInt8) : List UInt8 := bytes.takeWhile (· != 0)

def form? (cur : Cursor) : Option (Token × Cursor) := do
  if cur.peek 1 = some '<' then
    let (suffix, cur) ← read? true (cur.skip 2)
    if suffix.isEmpty || !cur.isAt '>' then none else return (.tag "" (meant suffix), cur.skip 1)
  else
    let (handle, cur) ← handle? cur
    let (suffix, cur) ← read? false cur
    if isHandle handle then
      if suffix.isEmpty then none else return (.tag handle (meant suffix), cur)
    else
      let suffix := meant ((handle.toUTF8.toList.drop 1) ++ suffix)
      if suffix.isEmpty then return (.tag "" "!".toUTF8.toList, cur)
      else return (.tag "!" suffix, cur)

def token? (flow : Bool) (cur : Cursor) : Option (Token × Cursor) := do
  let (token, cur) ← form? cur
  if isGap cur.rest.head? || (flow && cur.isAt ',') then return (token, cur) else none

end Tag

namespace Directive

def number? (cur : Cursor) : Option (Nat × Cursor) :=
  let digits := cur.rest.takeWhile Char.isDigit
  if digits.isEmpty || digits.length > 9 then none
  else some (digits.foldl (fun n c => 10 * n + (c.toNat - '0'.toNat)) 0, cur.skip digits.length)

def version? (cur : Cursor) : Option (Token × Cursor) := do
  let (major, cur) ← number? (cur.skipWhile isSpace)
  if !cur.isAt '.' then none
  else
    let (minor, cur) ← number? (cur.skip 1)
    return (.version major minor, cur)

def tag? (cur : Cursor) : Option (Token × Cursor) := do
  let (handle, cur) ← Tag.handle? (cur.skipWhile isSpace)
  if !(handle = "!" || Tag.isHandle handle) || !cur.rest.head?.any isSpace then none
  else
    let (expansion, cur) ← Tag.read? true (cur.skipWhile isSpace)
    if expansion.isEmpty || !isGap cur.rest.head? then none
    else return (.tagDirective handle (Tag.meant expansion), cur)

def token? (cur : Cursor) : Option (Token × Cursor) := do
  let name := String.ofList ((cur.rest.drop 1).takeWhile isWord)
  let cur := cur.skip (1 + name.length)
  if !isGap cur.rest.head? then none
  else
    let (token, cur) ←
      if name = "YAML" then version? cur else if name = "TAG" then tag? cur else none
    return (token, ← cur.endLine?)

end Directive

end DesignMetrics.Yaml
