import DesignMetrics.Digest.Blake3
import DesignMetrics.Json.Number

/-!
Reading JSON texts, which are bytes.
-/

namespace DesignMetrics.Json

/-- A piece of a string: a byte as it stands, or the code unit of an escape. -/
inductive Piece where
  | byte (b : UInt8)
  | unit (code : Nat)

def pieceBytes : List Piece → Option (List UInt8)
  | [] => some []
  | .byte b :: rest => (pieceBytes rest).map (b :: ·)
  | .unit u :: rest =>
    if 0xD800 ≤ u ∧ u < 0xDC00 then
      match rest with
      | .unit v :: rest =>
        if 0xDC00 ≤ v ∧ v < 0xE000 then
          let c := Char.ofNat (0x10000 + (u - 0xD800) * 0x400 + (v - 0xDC00))
          (pieceBytes rest).map (String.utf8EncodeChar c ++ ·)
        else none
      | _ => none
    else if 0xDC00 ≤ u ∧ u < 0xE000 then none
    else (pieceBytes rest).map (String.utf8EncodeChar (Char.ofNat u) ++ ·)

def pieceText? (pieces : List Piece) : Option String := do
  String.fromUTF8? ⟨(← pieceBytes pieces).toArray⟩

inductive Token where
  | openArray
  | closeArray
  | openObject
  | closeObject
  | comma
  | colon
  | text (value : Option String)
  | scalar (value : Json)

namespace Lexer

/-- What the byte before has left unfinished. -/
inductive Mode where
  | between
  | inText (done : List Piece)
  | inEscape (done : List Piece)
  | inCode (done : List Piece) (digits value : Nat)
  | inNumber (done : List Char)
  | inWord (done : List Char)

def isNumeric (c : Char) : Bool := c.isDigit || c == '-' || c == '+' || c == '.' || c == 'e' || c == 'E'

def numberToken? (done : List Char) : Option Token :=
  (Numeral.read? done.reverse).map fun n => .scalar n.toJson

def wordToken? (done : List Char) : Option Token :=
  match String.ofList done.reverse with
  | "null" => some (.scalar .null)
  | "true" => some (.scalar (.bool true))
  | "false" => some (.scalar (.bool false))
  | _ => none

def begin (c : Char) : Option (Mode × List Token) :=
  if c = ' ' ∨ c = '\n' ∨ c = '\t' ∨ c = '\r' then some (.between, [])
  else if c = '[' then some (.between, [.openArray])
  else if c = ']' then some (.between, [.closeArray])
  else if c = '\x7b' then some (.between, [.openObject])
  else if c = '\x7d' then some (.between, [.closeObject])
  else if c = ',' then some (.between, [.comma])
  else if c = ':' then some (.between, [.colon])
  else if c = '"' then some (.inText [], [])
  else if c.isDigit ∨ c = '-' then some (.inNumber [c], [])
  else if c.isAlpha then some (.inWord [c], [])
  else none

def escaped? (c : Char) : Option Char :=
  if c = '"' ∨ c = '\\' ∨ c = '/' then some c
  else if c = 'b' then some '\x08'
  else if c = 'f' then some '\x0c'
  else if c = 'n' then some '\n'
  else if c = 'r' then some '\r'
  else if c = 't' then some '\t'
  else none

def step (mode : Mode) (b : UInt8) : Option (Mode × List Token) :=
  let c := Char.ofNat b.toNat
  match mode with
  | .between => begin c
  | .inText done =>
    if c = '"' then some (.between, [.text (pieceText? done.reverse)])
    else if c = '\\' then some (.inEscape done, [])
    else if b < 0x20 then none
    else some (.inText (.byte b :: done), [])
  | .inEscape done =>
    if c = 'u' then some (.inCode done 0 0, [])
    else (escaped? c).map fun e => (.inText (.byte e.toNat.toUInt8 :: done), [])
  | .inCode done digits value =>
    match Digest.hexValue? c with
    | none => none
    | some v =>
      if digits = 3 then some (.inText (.unit (value * 16 + v) :: done), [])
      else some (.inCode done (digits + 1) (value * 16 + v), [])
  | .inNumber done =>
    if isNumeric c then some (.inNumber (c :: done), [])
    else do
      let token ← numberToken? done
      let (mode, tokens) ← begin c
      return (mode, token :: tokens)
  | .inWord done =>
    if c.isAlpha then some (.inWord (c :: done), [])
    else do
      let token ← wordToken? done
      let (mode, tokens) ← begin c
      return (mode, token :: tokens)

def finish : Mode → Option (List Token)
  | .between => some []
  | .inNumber done => (numberToken? done).map fun t => [t]
  | .inWord done => (wordToken? done).map fun t => [t]
  | _ => none

def run (mode : Mode) (done : List Token) : List UInt8 → Option (List Token)
  | [] => (finish mode).map fun tokens => done.reverse ++ tokens
  | b :: rest =>
    match step mode b with
    | none => none
    | some (mode, tokens) => run mode (tokens.reverse ++ done) rest

def tokens? (bytes : List UInt8) : Option (List Token) := run .between [] bytes

end Lexer

/-- An array or object that is still open; what it holds stands last first. An object whose keys
are not all texts is broken. -/
inductive Frame where
  | array (items : List Json)
  | object (fields : List (String × Json)) (spoiled : Bool) (key : Option String)

/-- What may come next. -/
inductive Need where
  | value
  | valueOrEnd
  | key
  | keyOrEnd
  | colon
  | commaOrEnd
  | nothing

structure Stack where
  frames : List Frame
  need : Need
  result : Json

namespace Stack

def start : Stack := ⟨[], .value, .null⟩

def put (frames : List Frame) (j : Json) : Stack :=
  match frames with
  | [] => ⟨[], .nothing, j⟩
  | .array items :: rest => ⟨.array (j :: items) :: rest, .commaOrEnd, .null⟩
  | .object fields spoiled key :: rest =>
    match key with
    | some k => ⟨.object ((k, j) :: fields) spoiled none :: rest, .commaOrEnd, .null⟩
    | none => ⟨.object fields true none :: rest, .commaOrEnd, .null⟩

def close : Frame → Json
  | .array items => .array items.reverse
  | .object fields spoiled _ => if spoiled then .broken else .object fields.reverse

def push (s : Stack) (t : Token) : Option Stack :=
  match s.need, t, s.frames with
  | .value, .openArray, fs | .valueOrEnd, .openArray, fs => some ⟨.array [] :: fs, .valueOrEnd, .null⟩
  | .value, .openObject, fs | .valueOrEnd, .openObject, fs =>
    some ⟨.object [] false none :: fs, .keyOrEnd, .null⟩
  | .value, .scalar j, fs | .valueOrEnd, .scalar j, fs => some (put fs j)
  | .value, .text v, fs | .valueOrEnd, .text v, fs => some (put fs ((v.map .string).getD .broken))
  | .valueOrEnd, .closeArray, .array items :: fs => some (put fs (close (.array items)))
  | .commaOrEnd, .closeArray, .array items :: fs => some (put fs (close (.array items)))
  | .commaOrEnd, .comma, .array items :: fs => some ⟨.array items :: fs, .value, .null⟩
  | .commaOrEnd, .comma, .object fields b k :: fs => some ⟨.object fields b k :: fs, .key, .null⟩
  | .commaOrEnd, .closeObject, .object fields b k :: fs => some (put fs (close (.object fields b k)))
  | .keyOrEnd, .closeObject, .object fields b k :: fs => some (put fs (close (.object fields b k)))
  | .key, .text v, .object fields b _ :: fs | .keyOrEnd, .text v, .object fields b _ :: fs =>
    some ⟨.object fields b v :: fs, .colon, .null⟩
  | .colon, .colon, fs => some ⟨fs, .value, .null⟩
  | _, _, _ => none

def pushAll (s : Stack) : List Token → Option Stack
  | [] => some s
  | t :: rest =>
    match s.push t with
    | some s => pushAll s rest
    | none => none

end Stack

/-- The bytes are first cut into tokens by a machine that looks at one byte at a time; the tokens
are then put together on a stack of the arrays and objects that are still open. Both passes are
folds, so a text may be nested as deeply as it likes. -/
def parse? (bytes : List UInt8) : Option Json := do
  let s ← Stack.start.pushAll (← Lexer.tokens? bytes)
  match s.need with
  | .nothing => some s.result
  | _ => none

def nestingLimit : Nat := 127

def parseStored? (bytes : ByteArray) : Option Json :=
  (parse? bytes.data.toList).map (cut nestingLimit)

end DesignMetrics.Json
