import DesignMetrics.Text.Basic

/-!
Tags of documentation comments: `@return`, `@throws` and `@var`, each followed by blanks and a type.
The type ends at a blank or an asterisk.
-/

namespace DesignMetrics

/-- The tags that name types. -/
inductive DocTag where
  | ret
  | throws
  | var
  deriving DecidableEq, Repr

namespace DocTag

def words : List (DocTag × List Char) :=
  [(ret, "@return".toList), (throws, "@throws".toList), (var, "@var".toList)]

end DocTag

/-- The types that a documentation comment gives. -/
structure DocTags where
  returnType : Option String := none
  throws : List String := []
  varType : Option String := none
  deriving DecidableEq, Repr

namespace DocTags

def isTypeChar (c : Char) : Bool := !Text.isBlank c && c != '*'

def typeAfter? (word text : List Char) : Option (List Char × List Char) :=
  let tail := text.drop word.length
  let body := tail.dropWhile Text.isBlank
  let type := body.takeWhile isTypeChar
  if word.isPrefixOf text ∧ body.length < tail.length ∧ ¬ type.isEmpty then
    some (type, body.dropWhile isTypeChar)
  else none

theorem length_typeAfter? {word text type rest : List Char}
    (h : typeAfter? word text = some (type, rest)) : rest.length < text.length := by
  simp only [typeAfter?, Option.ite_none_right_eq_some, Option.some.injEq, Prod.mk.injEq] at h
  obtain ⟨⟨_, shorter, _⟩, _, rfl⟩ := h
  have chars := (List.dropWhile_suffix (l := (text.drop word.length).dropWhile Text.isBlank)
    isTypeChar).length_le
  simp only [List.length_drop] at shorter
  omega

def tagAt? (text : List Char) : Option (DocTag × List Char × List Char) :=
  DocTag.words.findSome? fun w => (typeAfter? w.2 text).map fun found => (w.1, found)

theorem length_tagAt? {text type rest : List Char} {tag : DocTag}
    (h : tagAt? text = some (tag, type, rest)) : rest.length < text.length := by
  obtain ⟨w, _, found⟩ := List.exists_of_findSome?_eq_some h
  obtain ⟨⟨_, _⟩, after, same⟩ := Option.map_eq_some_iff.mp found
  cases same
  exact length_typeAfter? after

def scan (text : List Char) : List (DocTag × String) :=
  match found : tagAt? text with
  | some (tag, type, rest) =>
    have := length_tagAt? found
    (tag, String.ofList type) :: scan rest
  | none =>
    match text with
    | [] => []
    | _ :: rest => scan rest
termination_by text.length

def parse (comment : String) : DocTags :=
  let tags := scan comment.toList
  let types (tag : DocTag) := (tags.filter fun t => t.1 = tag).map Prod.snd
  { returnType := (types .ret).head?, throws := types .throws, varType := (types .var).head? }

end DocTags

end DesignMetrics
