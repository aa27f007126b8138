import Std.Data.TreeMap
import DesignMetrics.Syntax.Basic
import DesignMetrics.Text.Basic

/-!
Resolving names. Inside a file the current namespace and the aliases of `use` declarations decide
which class a written name stands for.
-/

namespace DesignMetrics

def scalarWords : List String :=
  ["int", "integer", "float", "double", "string", "bool", "boolean", "array", "callable", "iterable",
    "object", "mixed", "void", "null", "false", "true", "never", "resource", "numeric", "scalar"]

def isScalarName (name : String) : Bool := scalarWords.contains (Text.lower name)

/-- The namespace and the aliases in effect at a point of a file. -/
structure NameScope where
  space : String := ""
  aliases : Std.TreeMap String String := ∅

namespace NameScope

/-- Entering a namespace forgets the aliases of the last one. -/
def enter (_ : NameScope) (space : String) : NameScope :=
  { space := Text.trimBoth (· == '\\') space, aliases := ∅ }

def lastSegment (name : String) : String :=
  match Text.splitLast? '\\' name with
  | some (_, last) => last
  | none => name

def addAlias (scope : NameScope) (target : String) (short : Option String) : NameScope :=
  let target := Text.trimStart (· == '\\') target
  let short := short.getD (lastSegment target)
  { scope with aliases := scope.aliases.insert (Text.lower short) target }

def qualify (scope : NameScope) (name : String) : String :=
  if scope.space.isEmpty then name else scope.space ++ "\\" ++ name

def relativeStart : List Char := "namespace\\".toList

def resolveName (scope : NameScope) (written : String) : String :=
  let name := Text.withoutBlanks written
  match name.toList with
  | '\\' :: absolute => String.ofList absolute
  | cs =>
    if (cs.take 10).map Char.toLower = relativeStart then scope.qualify (String.ofList (cs.drop 10))
    else
      match Text.splitFirst? '\\' name with
      | some (first, rest) =>
        match scope.aliases.get? (Text.lower first) with
        | some target => target ++ "\\" ++ rest
        | none => scope.qualify name
      | none =>
        match scope.aliases.get? (Text.lower name) with
        | some target => target
        | none => scope.qualify name

def resolveType (scope : NameScope) (written : String) : TypeRef :=
  let name := Text.trimStart (· == '?') (Text.trim written)
  match Text.lower name with
  | "self" => .selfType
  | "parent" => .parentType
  | "static" | "$this" => .staticType
  | word => if scalarWords.contains word then .scalar word else .named (scope.resolveName name)

def resolveDocType (scope : NameScope) (written : String) : Option TypeRef :=
  let candidates := (Text.splitAll '|' written).map Text.trim
  match candidates.find? fun t => !t.isEmpty && !Text.sameFolded t "null" with
  | none => none
  | some t =>
    if "[]".toList.isSuffixOf t.toList || t.toList.contains '<' then some (.scalar "array")
    else some (scope.resolveType t)

end NameScope

end DesignMetrics
