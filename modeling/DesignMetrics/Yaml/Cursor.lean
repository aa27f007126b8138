/-!
A place in a YAML text: the characters that follow, and where they stand.
-/

namespace DesignMetrics.Yaml

def isBreak (c : Char) : Bool :=
  c = '\r' || c = '\n' || c = '\u0085' || c = '\u2028' || c = '\u2029'

def isSpace (c : Char) : Bool := c = ' ' || c = '\t'

def isGap (c : Option Char) : Bool := c.all fun c => isSpace c || isBreak c

def isWord (c : Char) : Bool := c.isAlphanum || c = '_' || c = '-'

def isAllowed (c : Char) : Bool :=
  let n := c.toNat
  n == 0x9 || n == 0xA || n == 0xD || (0x20 ≤ n && n ≤ 0x7E) || n == 0x85
    || (0xA0 ≤ n && n ≤ 0xD7FF) || (0xE000 ≤ n && n ≤ 0xFFFD) || 0x10000 ≤ n

structure Cursor where
  rest : List Char
  left : Nat := rest.length
  offset : Nat := 0
  line : Nat := 0
  column : Nat := 0

namespace Cursor

def peek (cur : Cursor) (n : Nat) : Option Char := cur.rest[n]?

def isAt (cur : Cursor) (c : Char) : Bool := cur.rest.head? = some c

def offsetBehind (cur : Cursor) (count : Nat) : Nat :=
  (cur.rest.take count).foldl (fun n c => n + c.utf8Size) cur.offset

def skip (cur : Cursor) (count : Nat) : Cursor :=
  { cur with
    rest := cur.rest.drop count
    left := cur.left - count
    offset := cur.offsetBehind count
    column := cur.column + count }

def skipWhile (p : Char → Bool) (cur : Cursor) : Cursor :=
  cur.skip (cur.rest.takeWhile p).length

def skipComment (cur : Cursor) : Cursor :=
  if cur.isAt '#' then cur.skipWhile (fun c => !isBreak c) else cur

def nextLine (cur : Cursor) (count : Nat) : Cursor :=
  { rest := cur.rest.drop count
    left := cur.left - count
    offset := cur.offsetBehind count
    line := cur.line + 1
    column := 0 }

/-- A line ends with a line feed, a carriage return or both, or with one of three characters of
Unicode. -/
def readBreak (cur : Cursor) : String × Cursor :=
  match cur.rest with
  | '\r' :: '\n' :: _ => ("\n", cur.nextLine 2)
  | c :: _ =>
    if c = '\u2028' || c = '\u2029' then (String.singleton c, cur.nextLine 1)
    else if isBreak c then ("\n", cur.nextLine 1)
    else ("", cur)
  | [] => ("", cur)

def atMark (cur : Cursor) (c : Char) : Bool :=
  cur.column = 0 && cur.rest.take 3 = [c, c, c] && isGap (cur.peek 3)

def atDocumentMark (cur : Cursor) : Bool := cur.atMark '-' || cur.atMark '.'

def endLine? (cur : Cursor) : Option Cursor :=
  let cur := (cur.skipWhile isSpace).skipComment
  if cur.rest.head?.all isBreak then some cur.readBreak.2 else none

end Cursor

end DesignMetrics.Yaml
