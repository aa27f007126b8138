import DesignMetrics.Yaml.Property

/-!
From a text to its tokens. The indentation of a line opens and closes block collections.
-/

namespace DesignMetrics.Yaml

/-- A place where a key may have started. -/
structure KeyStart where
  required : Bool
  tokens : Nat
  offset : Nat
  line : Nat
  column : Nat

/-- A text while its tokens are read. -/
structure Scan where
  cursor : Cursor
  tokens : Array Token := #[]
  margin : Nat := 0
  margins : List Nat := []
  keyStart : Option KeyStart := none
  keyStarts : List (Option KeyStart) := []
  mayStartKey : Bool := true

namespace Scan

def inFlow (s : Scan) : Bool := !s.keyStarts.isEmpty

def emit (s : Scan) (token : Token) : Scan := { s with tokens := s.tokens.push token }

def take (s : Scan) (token : Token) (count : Nat) : Scan :=
  { s.emit token with cursor := s.cursor.skip count }

def insert (s : Scan) (count : Nat) (token : Token) : Scan :=
  { s with tokens := s.tokens.insertIdxIfInBounds count token }

def roll (s : Scan) (column count : Nat) (token : Token) : Scan :=
  if s.inFlow || column < s.margin then s
  else { s.insert count token with margin := column + 1, margins := s.margin :: s.margins }

def unrollTo (margin : Nat) : List Nat → Scan → Scan
  | [], s => s
  | outer :: rest, s =>
    if margin < s.margin then
      unrollTo margin rest { s.emit .blockEnd with margin := outer, margins := rest }
    else s

def unroll (s : Scan) (margin : Nat) : Scan :=
  if s.inFlow then s else unrollTo margin s.margins s

def dropKey? (s : Scan) : Option Scan :=
  if s.keyStart.any KeyStart.required then none else some { s with keyStart := none }

/-- A key is known only by the colon behind it, so the place where one may start is kept, for each
collection in flow style apart, until the colon comes, the line ends, or more than 1024 bytes have
passed. -/
def saveKey? (s : Scan) : Option Scan :=
  if s.mayStartKey then do
    let here : KeyStart :=
      { required := !s.inFlow && s.margin = s.cursor.column + 1
        tokens := s.tokens.size
        offset := s.cursor.offset
        line := s.cursor.line
        column := s.cursor.column }
    return { ← s.dropKey? with keyStart := some here }
  else some s

def fresh? (cur : Cursor) : Option KeyStart → Option (Option KeyStart)
  | none => some none
  | some k =>
    if k.line < cur.line || k.offset + 1024 < cur.offset then
      if k.required then none else some none
    else some (some k)

def dropStale? (s : Scan) : Option Scan := do
  let keyStart ← fresh? s.cursor s.keyStart
  let keyStarts ← s.keyStarts.mapM (fresh? s.cursor)
  return { s with keyStart, keyStarts }

def skipBlanksTo : Nat → Scan → Scan
  | 0, s => s
  | steps + 1, s =>
    let marked := s.cursor.column = 0 && s.cursor.isAt '\ufeff'
    let start := if marked then s.cursor.skip 1 else s.cursor
    let tabs := s.inFlow || !s.mayStartKey
    let cur := (start.skipWhile fun c => c = ' ' || (tabs && c = '\t')).skipComment
    if cur.rest.head?.any isBreak then
      skipBlanksTo steps
        { s with cursor := cur.readBreak.2, mayStartKey := !s.inFlow || s.mayStartKey }
    else { s with cursor := cur }

def skipBlanks (s : Scan) : Scan := skipBlanksTo (s.cursor.left + 1) s

def atDocument? (s : Scan) (token : Token) (cursor : Cursor) : Option Scan := do
  let s ← (s.unroll 0).dropKey?
  return { s.emit token with cursor, mayStartKey := false }

def openFlow? (s : Scan) (token : Token) : Option Scan := do
  let s ← s.saveKey?
  return { s.take token 1 with
    keyStart := none, keyStarts := s.keyStart :: s.keyStarts, mayStartKey := true }

def closeFlow? (s : Scan) (token : Token) : Option Scan := do
  let s ← s.dropKey?
  let s := { s.take token 1 with mayStartKey := false }
  match s.keyStarts with
  | [] => return s
  | outer :: rest => return { s with keyStart := outer, keyStarts := rest }

def comma? (s : Scan) : Option Scan := do
  return { (← s.dropKey?).take .flowEntry 1 with mayStartKey := true }

def rollHere? (s : Scan) (token : Token) : Option Scan :=
  if s.inFlow then some s
  else if s.mayStartKey then some (s.roll s.cursor.column s.tokens.size token)
  else none

def dash? (s : Scan) : Option Scan := do
  let s ← (← s.rollHere? .blockSequenceStart).dropKey?
  return { s.take .blockEntry 1 with mayStartKey := true }

def key? (s : Scan) : Option Scan := do
  let s ← (← s.rollHere? .blockMappingStart).dropKey?
  return { s.take .key 1 with mayStartKey := !s.inFlow }

def value? (s : Scan) : Option Scan :=
  match s.keyStart with
  | some k =>
    let s := (s.insert k.tokens .key).roll k.column k.tokens .blockMappingStart
    some { s.take .value 1 with keyStart := none, mayStartKey := false }
  | none => do
    let s ← s.rollHere? .blockMappingStart
    return { s.take .value 1 with mayStartKey := !s.inFlow }

def inKey? (s : Scan) (token : Token) (cursor : Cursor) : Option Scan := do
  let s ← s.saveKey?
  return { s.emit token with cursor, mayStartKey := false }

def block? (s : Scan) (style : ScalarStyle) : Option Scan := do
  let s ← s.dropKey?
  let (text, cursor) ← Block.read? (style = .literal) s.margin s.cursor
  return { s.emit (.scalar style text) with cursor, mayStartKey := true }

def quoted? (s : Scan) (style : ScalarStyle) : Option Scan := do
  let (text, cursor) ← Quoted.read? (style = .singleQuoted) s.cursor
  s.inKey? (.scalar style text) cursor

def plain? (s : Scan) : Option Scan := do
  let found ← Plain.read? s.inFlow s.margin s.cursor
  let s ← s.inKey? (.scalar .plain found.text) found.cursor
  return { s with mayStartKey := found.broken }

def startsPlain (s : Scan) (c : Char) (next : Option Char) : Bool :=
  if c = '-' then !next.any isSpace
  else if c = '?' || c = ':' then !s.inFlow && !isGap next
  else !(isSpace c || isBreak c || isFlowSign c || "#&*!|>'\"%@\x60".contains c)

def token? (s : Scan) (c : Char) : Option Scan := do
  let cur := s.cursor
  let next := cur.peek 1
  if cur.column = 0 && c = '%' then
    let (token, cursor) ← Directive.token? cur
    s.atDocument? token cursor
  else if cur.atMark '-' then s.atDocument? .documentStart (cur.skip 3)
  else if cur.atMark '.' then s.atDocument? .documentEnd (cur.skip 3)
  else if c = '[' then s.openFlow? .flowSequenceStart
  else if c = '\x7b' then s.openFlow? .flowMappingStart
  else if c = ']' then s.closeFlow? .flowSequenceEnd
  else if c = '\x7d' then s.closeFlow? .flowMappingEnd
  else if c = ',' then s.comma?
  else if c = '-' && isGap next then s.dash?
  else if c = '?' && (s.inFlow || isGap next) then s.key?
  else if c = ':' && (s.inFlow || isGap next) then s.value?
  else if c = '*' then
    let (name, cursor) ← anchorName? cur
    s.inKey? (.reference name) cursor
  else if c = '&' then
    let (name, cursor) ← anchorName? cur
    s.inKey? (.anchor name) cursor
  else if c = '!' then
    let (token, cursor) ← Tag.token? s.inFlow cur
    s.inKey? token cursor
  else if c = '|' && !s.inFlow then s.block? .literal
  else if c = '>' && !s.inFlow then s.block? .folded
  else if c = '\'' then s.quoted? .singleQuoted
  else if c = '"' then s.quoted? .doubleQuoted
  else if s.startsPlain c next then s.plain?
  else none

def tokens? : Nat → Scan → Option (Array Token)
  | 0, _ => none
  | steps + 1, s => do
    let s ← s.skipBlanks.dropStale?
    let s := s.unroll (s.cursor.column + 1)
    match s.cursor.rest with
    | [] => return (← (s.unroll 0).dropKey?).tokens
    | c :: _ => tokens? steps (← s.token? c)

end Scan

def Token.ofText? (text : String) : Option (List Token) :=
  if text.toList.all isAllowed then
    (Scan.tokens? (text.length + 1) { cursor := { rest := text.toList } }).map Array.toList
  else none

end DesignMetrics.Yaml
