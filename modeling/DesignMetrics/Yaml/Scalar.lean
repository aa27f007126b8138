import DesignMetrics.Digest.Blake3
import DesignMetrics.Yaml.Cursor
import DesignMetrics.Yaml.Token

/-!
Reading scalars: plain ones, those in quotes, and blocks of lines. A line break inside a scalar is
folded into a blank unless the style keeps it. Every function gives nothing if the text is wrong.
-/

namespace DesignMetrics.Yaml

/-- The blanks and line breaks between two words of a scalar. -/
structure Gap where
  spaces : String := ""
  broken : Bool := false
  firstBreak : String := ""
  moreBreaks : String := ""

namespace Gap

def addSpace (g : Gap) (c : Char) : Gap :=
  if g.broken then g else { g with spaces := g.spaces.push c }

def addBreak (g : Gap) (text : String) : Gap :=
  if g.broken then { g with moreBreaks := g.moreBreaks ++ text }
  else { g with broken := true, firstBreak := text }

def text (g : Gap) : String :=
  if !g.broken then g.spaces
  else if g.firstBreak = "\n" then if g.moreBreaks.isEmpty then " " else g.moreBreaks
  else g.firstBreak ++ g.moreBreaks

def read? (margin : Nat) : Nat → Gap → Cursor → Option (Gap × Cursor)
  | 0, g, cur => some (g, cur)
  | steps + 1, g, cur =>
    match cur.rest with
    | [] => some (g, cur)
    | c :: _ =>
      if isSpace c then
        if g.broken && c = '\t' && cur.column < margin then none
        else read? margin steps (g.addSpace c) (cur.skip 1)
      else if isBreak c then
        let (text, next) := cur.readBreak
        read? margin steps (g.addBreak text) next
      else some (g, cur)

end Gap

def Cursor.gap? (margin : Nat) (g : Gap) (cur : Cursor) : Option (Gap × Cursor) :=
  Gap.read? margin cur.left g cur

def isFlowSign (c : Char) : Bool :=
  c = ',' || c = '[' || c = ']' || c = '\x7b' || c = '\x7d'

namespace Plain

def word? (flow : Bool) : List Char → Option (List Char)
  | [] => some []
  | c :: rest =>
    if isSpace c || isBreak c then some []
    else if flow && c = ':' && rest.head?.any (fun d => isFlowSign d || d = '?') then none
    else if c = ':' && isGap rest.head? then some []
    else if flow && isFlowSign c then some []
    else (word? flow rest).map (c :: ·)

/-- A plain scalar: its text, whether it ends behind a line break, and where. -/
structure Found where
  text : String
  broken : Bool
  cursor : Cursor

def words? (flow : Bool) (margin : Nat) : Nat → String → Gap → Cursor → Option Found
  | 0, _, _, _ => none
  | steps + 1, text, g, cur =>
    if cur.atDocumentMark || cur.isAt '#' then some ⟨text, g.broken, cur⟩
    else do
      let word ← word? flow cur.rest
      let (text, g) :=
        if word.isEmpty then (text, g) else (text ++ g.text ++ String.ofList word, {})
      let cur := cur.skip word.length
      if cur.rest.isEmpty || !isGap cur.rest.head? then return ⟨text, g.broken, cur⟩
      let (g, cur) ← cur.gap? margin g
      if !flow && cur.column < margin then return ⟨text, g.broken, cur⟩
      words? flow margin steps text g cur

def read? (flow : Bool) (margin : Nat) (cur : Cursor) : Option Found :=
  words? flow margin (cur.left + 1) "" {} cur

end Plain

namespace Quoted

/-- What a character behind a backslash stands for. -/
inductive Escape where
  | char (c : Char)
  | code (digits : Nat)

def escape? : Char → Option Escape
  | '0' => some (.char '\x00')
  | 'a' => some (.char '\x07')
  | 'b' => some (.char '\x08')
  | 't' | '\t' => some (.char '\t')
  | 'n' => some (.char '\n')
  | 'v' => some (.char '\x0b')
  | 'f' => some (.char '\x0c')
  | 'r' => some (.char '\r')
  | 'e' => some (.char '\x1b')
  | ' ' => some (.char ' ')
  | '"' => some (.char '"')
  | '/' => some (.char '/')
  | '\\' => some (.char '\\')
  | 'N' => some (.char '\u0085')
  | '_' => some (.char '\u00a0')
  | 'L' => some (.char '\u2028')
  | 'P' => some (.char '\u2029')
  | 'x' => some (.code 2)
  | 'u' => some (.code 4)
  | 'U' => some (.code 8)
  | _ => none

def charOfHex? (digits : List Char) : Option Char := do
  let n ← digits.foldlM (fun n c => (Digest.hexValue? c).map (16 * n + ·)) 0
  if h : n.isValidChar then some (Char.ofNatAux n h) else none

/-- Characters without blanks: their text, whether they end with an escaped line break, and where. -/
structure Run where
  text : String
  broken : Bool
  cursor : Cursor

def run? (single : Bool) : Nat → String → Cursor → Option Run
  | 0, text, cur => some ⟨text, false, cur⟩
  | steps + 1, text, cur =>
    match cur.rest with
    | [] => some ⟨text, false, cur⟩
    | c :: rest =>
      if isSpace c || isBreak c then some ⟨text, false, cur⟩
      else if single then
        if c = '\'' then
          if rest.head? = some '\'' then run? single steps (text.push '\'') (cur.skip 2)
          else some ⟨text, false, cur⟩
        else run? single steps (text.push c) (cur.skip 1)
      else if c = '"' then some ⟨text, false, cur⟩
      else if c = '\\' then
        match rest with
        | [] => none
        | d :: more =>
          if isBreak d then some ⟨text, true, (cur.skip 1).readBreak.2⟩
          else
            match escape? d with
            | none => none
            | some (.char e) => run? single steps (text.push e) (cur.skip 2)
            | some (.code digits) =>
              if more.length < digits then none
              else
                match charOfHex? (more.take digits) with
                | some e => run? single steps (text.push e) (cur.skip (2 + digits))
                | none => none
      else run? single steps (text.push c) (cur.skip 1)

def runs? (single : Bool) : Nat → String → Cursor → Option (String × Cursor)
  | 0, _, _ => none
  | steps + 1, text, cur =>
    if cur.atDocumentMark || cur.rest.isEmpty then none
    else do
      let found ← run? single cur.left text cur
      if found.cursor.isAt (if single then '\'' else '"') then
        return (found.text, found.cursor.skip 1)
      let (g, next) ← found.cursor.gap? 0 { broken := found.broken }
      runs? single steps (found.text ++ g.text) next

def read? (single : Bool) (cur : Cursor) : Option (String × Cursor) :=
  runs? single (cur.left + 1) "" (cur.skip 1)

end Quoted

namespace Block

/-- What becomes of the line breaks at the end of a block. -/
inductive Chomping where
  | strip
  | clip
  | keep

def chomping? : Char → Option Chomping
  | '+' => some .keep
  | '-' => some .strip
  | _ => none

def digit? (cur : Cursor) : Option (Nat × Cursor) :=
  match cur.rest with
  | c :: _ =>
    if c = '0' then none
    else if c.isDigit then some (c.toNat - '0'.toNat, cur.skip 1)
    else some (0, cur)
  | [] => some (0, cur)

def header? (cur : Cursor) : Option (Chomping × Nat × Cursor) := do
  match cur.rest.head?.bind chomping? with
  | some chomping =>
    let (digit, cur) ← digit? (cur.skip 1)
    return (chomping, digit, cur)
  | none =>
    let (digit, cur) ← digit? cur
    if digit = 0 then return (.clip, 0, cur)
    match cur.rest.head?.bind chomping? with
    | some chomping => return (chomping, digit, cur.skip 1)
    | none => return (.clip, digit, cur)

/-- The indentation of a block, zero as long as it is not known; line breaks, and where they end. -/
structure Breaks where
  indent : Nat
  text : String
  cursor : Cursor

def breaks? (margin indent : Nat) : Nat → Nat → String → Cursor → Option Breaks
  | 0, _, _, _ => none
  | steps + 1, widest, text, cur =>
    let room := indent - cur.column
    let blanks := (cur.rest.takeWhile (· = ' ')).length
    let cur := cur.skip (if indent = 0 then blanks else min room blanks)
    let widest := max widest cur.column
    if (indent = 0 || cur.column < indent) && cur.isAt '\t' then none
    else if cur.rest.head?.any isBreak then
      let (ending, next) := cur.readBreak
      breaks? margin indent steps widest (text ++ ending) next
    else some ⟨if indent = 0 then max (max widest margin) 1 else indent, text, cur⟩

/-- The text of a block and the line breaks at its end, apart from each other. -/
structure Found where
  text : String
  lastBreak : String
  moreBreaks : String
  cursor : Cursor

def lines? (isLiteral : Bool) (margin : Nat) :
    Nat → String → String → Bool → Breaks → Option Found
  | 0, _, _, _, _ => none
  | steps + 1, text, last, indented, b =>
    if b.cursor.column = b.indent && !b.cursor.rest.isEmpty then do
      let blank := b.cursor.rest.head?.any isSpace
      let joint :=
        if !isLiteral && last = "\n" && !indented && !blank then
          if b.text.isEmpty then " " else ""
        else last
      let line := b.cursor.rest.takeWhile (fun c => !isBreak c)
      let (ending, next) := (b.cursor.skip line.length).readBreak
      let following ← breaks? margin b.indent (next.left + 1) 0 "" next
      lines? isLiteral margin steps (text ++ joint ++ b.text ++ String.ofList line) ending blank
        following
    else some ⟨text, last, b.text, b.cursor⟩

def read? (isLiteral : Bool) (margin : Nat) (cur : Cursor) : Option (String × Cursor) := do
  let (chomping, digit, cur) ← header? (cur.skip 1)
  let cur ← cur.endLine?
  let indent := if digit = 0 then 0 else margin - 1 + digit
  let start ← breaks? margin indent (cur.left + 1) 0 "" cur
  let found ← lines? isLiteral margin (cur.left + 1) "" "" false start
  let ending :=
    match chomping with
    | .strip => ""
    | .clip => found.lastBreak
    | .keep => found.lastBreak ++ found.moreBreaks
  return (found.text ++ ending, found.cursor)

end Block

end DesignMetrics.Yaml
