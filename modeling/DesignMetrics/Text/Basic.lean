/-!
Texts: their case, the blanks in them, and cutting them at one character, at its first occurrence, at its
last, or at all of them.
-/

namespace DesignMetrics.Text

/-- Only the letters `A` to `Z` have a second spelling. -/
def lower (s : String) : String := String.ofList (s.toList.map Char.toLower)

def sameFolded (a b : String) : Bool := lower a == lower b

/-- The characters with the Unicode property `White_Space`, of which there are twenty-five. -/
def isBlank (c : Char) : Bool :=
  let n := c.toNat
  (0x9 ≤ n && n ≤ 0xD) || n == 0x20 || n == 0x85 || n == 0xA0 || n == 0x1680
    || (0x2000 ≤ n && n ≤ 0x200A) || n == 0x2028 || n == 0x2029 || n == 0x202F
    || n == 0x205F || n == 0x3000

def trimChars (p : Char → Bool) (cs : List Char) : List Char :=
  ((cs.dropWhile p).reverse.dropWhile p).reverse

def trimStart (p : Char → Bool) (s : String) : String :=
  String.ofList (s.toList.dropWhile p)

def trimBoth (p : Char → Bool) (s : String) : String :=
  String.ofList (trimChars p s.toList)

def trim (s : String) : String := trimBoth isBlank s

def withoutBlanks (s : String) : String :=
  String.ofList (s.toList.filter fun c => !isBlank c)

def splitFirst? (sep : Char) (s : String) : Option (String × String) :=
  match s.toList.dropWhile (· != sep) with
  | [] => none
  | _ :: after => some (String.ofList (s.toList.takeWhile (· != sep)), String.ofList after)

def splitLast? (sep : Char) (s : String) : Option (String × String) :=
  match s.toList.reverse.dropWhile (· != sep) with
  | [] => none
  | _ :: before =>
    some (String.ofList before.reverse,
      String.ofList (s.toList.reverse.takeWhile (· != sep)).reverse)

theorem ne_sep_of_notMem {sep : Char} {cs : List Char} (none : sep ∉ cs)
    : ∀ c ∈ cs, (c != sep) = true := by
  intro c member
  simpa using fun same : c = sep => none (same ▸ member)

/-- A text ends its first part where the first separator stands. -/
theorem splitFirst?_append {sep : Char} {mid : String} (cut : mid.toList = [sep]) {a : String}
    (none : sep ∉ a.toList) (b : String) : splitFirst? sep (a ++ mid ++ b) = some (a, b) := by
  have skip := ne_sep_of_notMem none
  simp [splitFirst?, cut, List.dropWhile_append_of_pos skip, List.takeWhile_append_of_pos skip]

theorem splitFirst?_of_notMem {sep : Char} {s : String} (none : sep ∉ s.toList)
    : splitFirst? sep s = Option.none := by
  have all : s.toList.dropWhile (· != sep) = [] := by
    rw [← List.append_nil s.toList, List.dropWhile_append_of_pos (ne_sep_of_notMem none),
      List.dropWhile_nil]
  rw [splitFirst?, all]

theorem splitLast?_append {sep : Char} {mid : String} (cut : mid.toList = [sep]) (a : String)
    {b : String} (none : sep ∉ b.toList) : splitLast? sep (a ++ mid ++ b) = some (a, b) := by
  have skip := ne_sep_of_notMem (mt List.mem_reverse.mp none)
  simp [splitLast?, cut, List.dropWhile_append_of_pos skip, List.takeWhile_append_of_pos skip]

theorem splitLast?_of_notMem {sep : Char} {s : String} (none : sep ∉ s.toList)
    : splitLast? sep s = Option.none := by
  have skip := ne_sep_of_notMem (mt List.mem_reverse.mp none)
  have all : s.toList.reverse.dropWhile (· != sep) = [] := by
    rw [← List.append_nil s.toList.reverse, List.dropWhile_append_of_pos skip, List.dropWhile_nil]
  rw [splitLast?, all]

def splitAll (sep : Char) (s : String) : List String :=
  (go s.toList []).map String.ofList
where
  go : List Char → List Char → List (List Char)
    | [], part => [part.reverse]
    | c :: rest, part => if c = sep then part.reverse :: go rest [] else go rest (c :: part)

end DesignMetrics.Text
