import DesignMetrics.Decimal.Shortest
import DesignMetrics.Digest.Blake3
import DesignMetrics.Json.Basic

/-!
JSON values written as text, either on one line without blanks or spread over lines.
-/

namespace DesignMetrics.Json

/-- Quotes, backslashes and the characters below U+0020 are escaped and nothing else is. -/
def escapeChar (c : Char) : List Char :=
  if c = '"' then ['\\', '"']
  else if c = '\\' then ['\\', '\\']
  else if c = '\n' then ['\\', 'n']
  else if c = '\r' then ['\\', 'r']
  else if c = '\t' then ['\\', 't']
  else if c = '\x08' then ['\\', 'b']
  else if c = '\x0c' then ['\\', 'f']
  else if c.toNat < 0x20 then
    ['\\', 'u', '0', '0', Digest.hexDigit (c.toNat / 16), Digest.hexDigit (c.toNat % 16)]
  else [c]

def quote (s : String) : String :=
  String.ofList ('"' :: s.toList.flatMap escapeChar ++ ['"'])

def withExponent (s : Decimal.Scientific) : List Char :=
  let mantissa :=
    match s.digits with
    | [] => []
    | [d] => [d]
    | d :: rest => d :: '.' :: rest
  let sign := if s.exponent < 0 then '-' else '+'
  mantissa ++ 'e' :: sign :: Nat.toDigits 10 s.exponent.natAbs

def positional (s : Decimal.Scientific) : List Char :=
  if s.exponent < 0 then
    '0' :: '.' :: List.replicate (s.exponent.natAbs - 1) '0' ++ s.digits
  else
    let whole := s.exponent.natAbs + 1
    let fraction := s.digits.drop whole
    s.digits.take whole ++ List.replicate (whole - s.digits.length) '0'
      ++ '.' :: (if fraction.isEmpty then ['0'] else fraction)

/-- A double is written with the fewest digits that read back. -/
def double (x : Float) : String :=
  let b := Decimal.Binary.ofBits x.toBits
  let body :=
    if b.mantissa = 0 then ['0', '.', '0']
    else
      let s := Decimal.shortest b
      if -5 ≤ s.exponent ∧ s.exponent < 16 then positional s else withExponent s
  String.ofList (if b.negative then '-' :: body else body)

def scalar : Json → String
  | .bool true => "true"
  | .bool false => "false"
  | .integer i => String.ofList (if i < 0 then '-' :: Nat.toDigits 10 i.natAbs else Nat.toDigits 10 i.natAbs)
  | .decimal x => double x
  | .string s => quote s
  | _ => "null"

mutual

def compact : Json → String
  | .array items => "[" ++ compactItems items ++ "]"
  | .object fields => "\x7b" ++ compactFields fields ++ "\x7d"
  | j => scalar j

def compactItems : List Json → String
  | [] => ""
  | [j] => j.compact
  | j :: rest => j.compact ++ "," ++ compactItems rest

def compactFields : List (String × Json) → String
  | [] => ""
  | [(k, j)] => quote k ++ ":" ++ j.compact
  | (k, j) :: rest => quote k ++ ":" ++ j.compact ++ "," ++ compactFields rest

end

def newline (level : Nat) : String := String.ofList ('\n' :: List.replicate (2 * level) ' ')

mutual

def pretty (level : Nat) : Json → String
  | .array [] => "[]"
  | .array items => "[" ++ prettyItems (level + 1) items ++ newline level ++ "]"
  | .object [] => "\x7b\x7d"
  | .object fields => "\x7b" ++ prettyFields (level + 1) fields ++ newline level ++ "\x7d"
  | j => scalar j

def prettyItems (level : Nat) : List Json → String
  | [] => ""
  | [j] => newline level ++ j.pretty level
  | j :: rest => newline level ++ j.pretty level ++ "," ++ prettyItems level rest

def prettyFields (level : Nat) : List (String × Json) → String
  | [] => ""
  | [(k, j)] => newline level ++ quote k ++ ": " ++ j.pretty level
  | (k, j) :: rest =>
    newline level ++ quote k ++ ": " ++ j.pretty level ++ "," ++ prettyFields level rest

end

end DesignMetrics.Json
