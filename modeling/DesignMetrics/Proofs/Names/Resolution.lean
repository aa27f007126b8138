import Mathlib.Data.List.Induction
import DesignMetrics.Names.Scope
import DesignMetrics.Proofs.Registry.Alike

/-! What the names in a file stand for.
A file enters namespaces and imports names. Where all of these are well formed, every name stands for a
well-formed one, and an import is found under its alias until it is shadowed or another namespace is
entered.
-/

namespace DesignMetrics

/-- Whether a text is a segment of a name: not empty, and without blanks and backslashes. -/
def IsSegment (s : String) : Prop :=
  s ≠ "" ∧ ∀ c ∈ s.toList, c ≠ '\\' ∧ Text.isBlank c = false

-- Only the characters of the text are tried.
instance (s : String) : Decidable (IsSegment s) :=
  @instDecidableAnd _ _ _ (List.decidableBAll _ s.toList)

/-- Segments with a single backslash between each two. -/
inductive WellFormedName : String → Prop
  | segment {s : String} (h : IsSegment s) : WellFormedName s
  | nested {s rest : String} (h : IsSegment s) (inner : WellFormedName rest)
    : WellFormedName (s ++ "\\" ++ rest)

/-- No letter is blank. -/
theorem Text.isBlank_toLower (c : Char) : isBlank c.toLower = isBlank c := by
  simp only [isBlank, toNat_toLower]
  split
  · grind
  · rfl

theorem Text.not_blank_joined {a b : String} (left : ∀ c ∈ a.toList, isBlank c = false)
    (right : ∀ c ∈ b.toList, isBlank c = false)
    : ∀ c ∈ (a ++ "\\" ++ b).toList, isBlank c = false := by
  simp only [String.toList_append, List.mem_append]
  rintro c ((member | member) | member)
  · exact left c member
  · obtain rfl : c = '\\' := by simpa using member
    decide
  · exact right c member

namespace IsSegment

variable {s : String}

theorem backslash_notMem (h : IsSegment s) : '\\' ∉ s.toList :=
  fun member => (h.2 _ member).1 rfl

theorem folded_notMem (h : IsSegment s) : '\\' ∉ s.toList.map Char.toLower := by
  intro inside
  obtain ⟨c, member, folded⟩ := List.mem_map.mp inside
  exact h.backslash_notMem ((Text.toLower_eq_iff (by decide) c).mp folded ▸ member)

theorem not_blank (h : IsSegment s) : ∀ c ∈ s.toList, Text.isBlank c = false :=
  fun c member => (h.2 c member).2

theorem ne_nil (h : IsSegment s) : s.toList ≠ [] := by
  simpa using h.1

/-- A case of its letters does not make a segment of what is none. -/
theorem of_lower {other : String} (h : IsSegment s) (same : Text.lower other = Text.lower s)
    : IsSegment other := by
  rw [Text.lower_eq_iff] at same
  constructor
  · rintro rfl
    exact h.ne_nil (by simpa using same.symm)
  · intro c member
    have folded : c.toLower ∈ s.toList.map Char.toLower := same ▸ List.mem_map_of_mem member
    obtain ⟨d, inside, alike⟩ := List.mem_map.mp folded
    have plain := h.2 d inside
    rw [ne_eq, ← Text.toLower_eq_iff (by decide), ← alike, Text.toLower_eq_iff (by decide),
      ← Text.isBlank_toLower, ← alike, Text.isBlank_toLower]
    exact plain

end IsSegment

namespace WellFormedName

variable {a b name : String}

theorem append (left : WellFormedName a) (right : WellFormedName b)
    : WellFormedName (a ++ "\\" ++ b) := by
  induction left with
  | segment h => exact .nested h right
  | nested h _ ih => simpa only [String.append_assoc] using nested h ih

section

variable (h : WellFormedName name)

include h

theorem not_blank : ∀ c ∈ name.toList, Text.isBlank c = false := by
  induction h with
  | segment h => exact h.not_blank
  | nested h _ ih => exact Text.not_blank_joined h.not_blank ih

/-- The first character belongs to a segment. -/
theorem starts : ∃ c more, name.toList = c :: more ∧ c ≠ '\\' := by
  have front {s : String} (h : IsSegment s) (more : List Char)
      : ∃ c rest, s.toList ++ more = c :: rest ∧ c ≠ '\\' := by
    obtain ⟨c, rest, here⟩ := List.exists_cons_of_ne_nil h.ne_nil
    exact ⟨c, rest ++ more, by simp [here], (h.2 c (by simp [here])).1⟩
  cases h with
  | segment h => simpa using front h []
  | nested h _ => simpa using front h _

/-- The last character belongs to a segment. -/
theorem ends : ∃ c more, name.toList = more ++ [c] ∧ c ≠ '\\' := by
  induction h with
  | segment h =>
    obtain ⟨more, c, here⟩ := List.eq_nil_or_concat _ |>.resolve_left h.ne_nil
    rw [List.concat_eq_append] at here
    exact ⟨c, more, here, (h.2 c (by simp [here])).1⟩
  | nested h _ ih =>
    obtain ⟨c, more, here, other⟩ := ih
    exact ⟨c, _ ++ more, by rw [String.toList_append, here, List.append_assoc], other⟩

theorem trimmed_start : name.toList.dropWhile (· == '\\') = name.toList := by
  obtain ⟨c, more, here, other⟩ := h.starts
  simp [here, other]

theorem trimmed_end : name.toList.reverse.dropWhile (· == '\\') = name.toList.reverse := by
  obtain ⟨c, more, here, other⟩ := h.ends
  simp [here, other]

end

theorem not_absolute : ¬ WellFormedName ("\\" ++ name) := by
  intro h
  obtain ⟨c, more, here, other⟩ := h.starts
  simp at here
  exact other here.1.symm

end WellFormedName

def slashed (count : Nat) (name : String) : String :=
  String.ofList (List.replicate count '\\') ++ name

variable {name target : String}

namespace Text

theorem withoutBlanks_eq_self {s : String} (h : ∀ c ∈ s.toList, isBlank c = false)
    : withoutBlanks s = s := by
  have all : s.toList.filter (fun c => !isBlank c) = s.toList :=
    List.filter_eq_self.mpr fun c member => by simp [h c member]
  rw [withoutBlanks, all, String.ofList_toList]

theorem trim_eq_self {s : String} (h : ∀ c ∈ s.toList, isBlank c = false) : trim s = s := by
  have kept {cs : List Char} (h : ∀ c ∈ cs, isBlank c = false) : cs.dropWhile isBlank = cs := by
    cases cs with
    | nil => rfl
    | cons c rest => simp [h c (by simp)]
  rw [trim, trimBoth, trimChars, kept h, kept fun c member => h c (List.mem_reverse.mp member),
    List.reverse_reverse, String.ofList_toList]

theorem dropWhile_slashed (count : Nat) (name : String)
    : (slashed count name).toList.dropWhile (· == '\\') = name.toList.dropWhile (· == '\\') := by
  rw [slashed, String.toList_append, String.toList_ofList, List.dropWhile_append_of_pos]
  intro c member
  simp [List.eq_of_mem_replicate member]

theorem trimStart_slashed (h : WellFormedName name) (count : Nat)
    : trimStart (· == '\\') (slashed count name) = name := by
  rw [trimStart, dropWhile_slashed, h.trimmed_start, String.ofList_toList]

theorem trimBoth_slashed (h : name = "" ∨ WellFormedName name) (count : Nat)
    : trimBoth (· == '\\') (slashed count name) = name := by
  rw [trimBoth, trimChars, dropWhile_slashed]
  rcases h with rfl | formed
  · rfl
  · rw [formed.trimmed_start, formed.trimmed_end, List.reverse_reverse, String.ofList_toList]

end Text

/-- A step of a file that changes what its names stand for. -/
inductive ScopeStep where
  | enter (space : String)
  | imports (target : String) (short : Option String)

namespace ScopeStep

/-- Whether what is entered or imported is well formed, apart from backslashes in front of it. The
global namespace has no name. -/
def Formed : ScopeStep → Prop
  | enter space => ∃ count name, space = slashed count name ∧ (name = "" ∨ WellFormedName name)
  | imports target _ => ∃ count name, target = slashed count name ∧ WellFormedName name

def knownAs (target : String) (short : Option String) : String :=
  short.getD (NameScope.lastSegment (Text.trimStart (· == '\\') target))

/-- Whether a name stands for the same after the step if it stood for an import before. -/
def Keeps (name : String) : ScopeStep → Prop
  | enter _ => False
  | imports target short => Text.lower (knownAs target short) ≠ Text.lower name

end ScopeStep

/-- Whether a name, in any case, is the alias of a target after the steps: one of them imports the
target under it, and no later one enters a namespace or imports something else under it. -/
def InEffect (steps : List ScopeStep) (name target : String) : Prop :=
  ∃ before written short later, steps = before ++ .imports written short :: later
    ∧ Text.lower (ScopeStep.knownAs written short) = Text.lower name
    ∧ target = Text.trimStart (· == '\\') written
    ∧ ∀ step ∈ later, step.Keeps name

variable {steps : List ScopeStep}

theorem inEffect_concat {step : ScopeStep}
    : InEffect (steps ++ [step]) name target
      ↔ (∃ written short, step = .imports written short
          ∧ Text.lower (ScopeStep.knownAs written short) = Text.lower name
          ∧ target = Text.trimStart (· == '\\') written)
        ∨ step.Keeps name ∧ InEffect steps name target := by
  constructor
  · rintro ⟨before, written, short, later, split, known, stands, keeps⟩
    rcases List.eq_nil_or_concat later with rfl | ⟨later, last, rfl⟩
    · obtain ⟨-, same⟩ := List.append_inj' split rfl
      exact .inl ⟨written, short, List.singleton_inj.mp same, known, stands⟩
    · rw [List.concat_eq_append] at split keeps
      rw [← List.cons_append, ← List.append_assoc] at split
      obtain ⟨front, same⟩ := List.append_inj' split rfl
      obtain rfl := List.singleton_inj.mp same
      exact .inr ⟨keeps step (by simp), before, written, short, later, front, known, stands,
        fun other member => keeps other (by simp [member])⟩
  · rintro (⟨written, short, rfl, known, stands⟩
      | ⟨kept, before, written, short, later, rfl, known, stands, keeps⟩)
    · exact ⟨steps, written, short, [], rfl, known, stands, by simp⟩
    · refine ⟨before, written, short, later ++ [step], by simp, known, stands, ?_⟩
      intro other member
      rcases List.mem_append.mp member with earlier | last
      · exact keeps other earlier
      · exact List.mem_singleton.mp last ▸ kept

namespace NameScope

def step (scope : NameScope) : ScopeStep → NameScope
  | .enter space => scope.enter space
  | .imports target short => scope.addAlias target short

def after (steps : List ScopeStep) : NameScope := steps.foldl step {}

theorem step_imports (scope : NameScope) (target : String) (short : Option String)
    : scope.step (.imports target short)
      = { scope with
          aliases := scope.aliases.insert (Text.lower (ScopeStep.knownAs target short))
            (Text.trimStart (· == '\\') target) } := rfl

theorem after_concat (steps : List ScopeStep) (last : ScopeStep)
    : after (steps ++ [last]) = (after steps).step last := by
  simp [after]

/-- Nothing that happened before a namespace was entered matters. -/
theorem after_enter (before : List ScopeStep) (space : String) (later : List ScopeStep)
    : after (before ++ .enter space :: later) = after (.enter space :: later) := by
  simp [after, step, enter]

/-- The aliases in the scope are those in effect. -/
theorem aliases_after
    : (after steps).aliases.get? (Text.lower name) = some target ↔ InEffect steps name target := by
  induction steps using List.reverseRecOn generalizing target with
  | nil => simp [after, InEffect]
  | append_singleton steps last ih =>
    rw [after_concat, inEffect_concat]
    cases last with
    | enter space => simp [step, enter, ScopeStep.Keeps]
    | imports written short =>
      simp only [step_imports, Std.TreeMap.get?_eq_getElem?, Std.TreeMap.getElem?_insert,
        Std.compare_eq_iff_eq]
      by_cases same : Text.lower (ScopeStep.knownAs written short) = Text.lower name
      · rw [if_pos same]
        simp [same, ScopeStep.Keeps, eq_comm]
      · rw [if_neg same]
        simpa [same, ScopeStep.Keeps] using ih

/-- Whether the namespace and all targets are well formed. -/
structure Formed (scope : NameScope) : Prop where
  space : scope.space = "" ∨ WellFormedName scope.space
  targets {short target : String} : scope.aliases.get? short = some target → WellFormedName target

namespace Formed

variable {scope : NameScope}

theorem step (h : scope.Formed) {next : ScopeStep} (formed : next.Formed)
    : (scope.step next).Formed := by
  cases next with
  | enter space =>
    obtain ⟨count, name, rfl, named⟩ := formed
    refine ⟨?_, fun found => by simp [NameScope.step, enter] at found⟩
    simpa only [NameScope.step, enter, Text.trimBoth_slashed named] using named
  | imports target short =>
    obtain ⟨count, name, rfl, named⟩ := formed
    refine ⟨h.space, fun {key found} stands => ?_⟩
    simp only [step_imports, Text.trimStart_slashed named, Std.TreeMap.get?_eq_getElem?,
      Std.TreeMap.getElem?_insert] at stands
    split at stands
    · exact Option.some.inj stands ▸ named
    · exact h.targets stands

theorem after (formed : ∀ step ∈ steps, step.Formed) : (NameScope.after steps).Formed := by
  induction steps using List.reverseRecOn with
  | nil => exact ⟨.inl rfl, fun found => by simp [NameScope.after] at found⟩
  | append_singleton steps last ih =>
    rw [after_concat]
    exact (ih fun step member => formed step (by simp [member])).step (formed last (by simp))

theorem qualify (h : scope.Formed) (named : WellFormedName name)
    : WellFormedName (scope.qualify name) := by
  unfold NameScope.qualify
  rcases h.space with empty | space
  · simpa [empty] using named
  · split
    · exact named
    · exact space.append named

end Formed

variable {first : String}

/-- A name is relative to the current namespace if its first segment, in any case, is `namespace`. -/
theorem starts_relative_iff (h : IsSegment first) (rest : List Char)
    : ((first.toList ++ '\\' :: rest).take 10).map Char.toLower = relativeStart
      ↔ Text.lower first = "namespace" := by
  have start : relativeStart = "namespace".toList ++ ['\\'] := by decide
  rw [List.map_take, List.map_append, List.map_cons, ← String.toList_inj, Text.toList_lower]
  constructor
  · intro same
    have whole := List.take_append_drop 10
      (first.toList.map Char.toLower ++ Char.toLower '\\' :: rest.map Char.toLower)
    rw [same, start, List.append_assoc] at whole
    exact (Text.eq_of_cut h.folded_notMem (by decide) whole.symm).1
  · intro same
    rw [same, start]
    rfl

/-- An absolute name is taken as it is, in every scope. -/
theorem resolveName_absolute (scope : NameScope) (named : WellFormedName name)
    : scope.resolveName ("\\" ++ name) = name := by
  have unblank : Text.withoutBlanks ("\\" ++ name) = "\\" ++ name :=
    Text.withoutBlanks_eq_self (Text.not_blank_joined (a := "") (by simp) named.not_blank)
  simp [resolveName, unblank]

/-- A segment is an alias or belongs to the current namespace. -/
theorem resolveName_segment (scope : NameScope) (h : IsSegment name)
    : scope.resolveName name
      = (scope.aliases.get? (Text.lower name)).getD (scope.qualify name) := by
  have cut := Text.splitFirst?_of_notMem h.backslash_notMem
  have relative : (name.toList.take 10).map Char.toLower ≠ relativeStart := by
    intro same
    have inside : '\\' ∈ (name.toList.take 10).map Char.toLower := by
      rw [same]
      decide
    exact h.folded_notMem (List.map_subset _ (List.take_subset _ _) inside)
  simp only [resolveName, Text.withoutBlanks_eq_self h.not_blank]
  split
  · rename_i starts
    exact absurd (by simp [starts]) h.backslash_notMem
  · rw [if_neg relative, cut]
    cases scope.aliases.get? (Text.lower name) <;> rfl

/-- Of a longer name, the first segment decides. -/
theorem resolveName_nested (scope : NameScope) {rest : String} (h : IsSegment first)
    (plain : ∀ c ∈ rest.toList, Text.isBlank c = false)
    : scope.resolveName (first ++ "\\" ++ rest)
      = if Text.lower first = "namespace" then scope.qualify rest
        else (scope.aliases.get? (Text.lower first)).elim (scope.qualify (first ++ "\\" ++ rest))
          (· ++ "\\" ++ rest) := by
  have unblank := Text.withoutBlanks_eq_self (Text.not_blank_joined h.not_blank plain)
  have cut := Text.splitFirst?_append (by rfl : "\\".toList = ['\\']) h.backslash_notMem rest
  have chars : (first ++ "\\" ++ rest).toList = first.toList ++ '\\' :: rest.toList := by simp
  have relative := starts_relative_iff h rest.toList
  simp only [resolveName, unblank]
  split
  · rename_i starts
    obtain ⟨c, more, here⟩ := List.exists_cons_of_ne_nil h.ne_nil
    have same : c = '\\' := by simp_all
    exact absurd same (h.2 c (by simp [here])).1
  · rw [chars, cut]
    by_cases here : Text.lower first = "namespace"
    · have length : first.toList.length = 9 := by
        have folded := congrArg String.toList here
        rw [Text.toList_lower] at folded
        rw [← List.length_map Char.toLower, folded]
        rfl
      have dropped : (first.toList ++ '\\' :: rest.toList).drop 10 = rest.toList := by
        rw [List.drop_append, length]
        simp [length]
      rw [if_pos (relative.mpr here), if_pos here, dropped, String.ofList_toList]
    · rw [if_neg (mt relative.mp here), if_neg here]
      cases found : scope.aliases.get? (Text.lower first) <;> simp only [found, Option.elim]

/-- In a well-formed scope names stand for well-formed ones. -/
theorem Formed.resolveName {scope : NameScope} (h : scope.Formed) (named : WellFormedName name)
    : WellFormedName (scope.resolveName name) := by
  cases named with
  | segment segment =>
    rw [resolveName_segment scope segment]
    cases found : scope.aliases.get? (Text.lower name) with
    | none => exact h.qualify (.segment segment)
    | some target => exact h.targets found
  | nested segment inner =>
    rw [resolveName_nested scope segment inner.not_blank]
    split
    · exact h.qualify inner
    · rename_i first _ _
      cases found : scope.aliases.get? (Text.lower first) with
      | none => exact h.qualify (.nested segment inner)
      | some target => exact (h.targets found).append inner

/-- The case of an alias does not matter. -/
theorem resolveName_respelled {scope : NameScope} {other rest : String} (segment : IsSegment first)
    (ends : rest = "" ∨ ∃ more, rest = "\\" ++ more)
    (plain : ∀ c ∈ rest.toList, Text.isBlank c = false)
    (found : scope.aliases.get? (Text.lower first) = some target)
    (same : Text.lower other = Text.lower first)
    : scope.resolveName (other ++ rest) = scope.resolveName (first ++ rest) := by
  have respelled := segment.of_lower same
  rcases ends with rfl | ⟨more, rfl⟩
  · rw [String.append_empty, String.append_empty, resolveName_segment scope respelled,
      resolveName_segment scope segment, same, found]
    rfl
  · have inner : ∀ c ∈ more.toList, Text.isBlank c = false :=
      fun c member => plain c (by simp [member])
    rw [← String.append_assoc, ← String.append_assoc, resolveName_nested scope respelled inner,
      resolveName_nested scope segment inner, same, found]
    rfl

/-- Every name stands for a well-formed one, and that is what its absolute form stands for anywhere.
Only the steps since a namespace was entered matter. An absolute name is never an alias; in any other
the case of a first segment that is one does not matter. -/
theorem resolved_name_wellFormed {steps : List ScopeStep} (formed : ∀ step ∈ steps, step.Formed)
    {raw : String} (written : WellFormedName raw ∨ ∃ name, WellFormedName name ∧ raw = "\\" ++ name)
    : WellFormedName ((after steps).resolveName raw)
      ∧ (∀ scope : NameScope, scope.resolveName ("\\" ++ (after steps).resolveName raw)
          = (after steps).resolveName raw)
      ∧ (∀ before space later, steps = before ++ .enter space :: later → ∀ others,
          (after (others ++ .enter space :: later)).resolveName raw = (after steps).resolveName raw)
      ∧ (∀ name, raw = "\\" ++ name → (after steps).resolveName raw = name)
      ∧ ∀ first other rest target, raw = first ++ rest → IsSegment first
          → (rest = "" ∨ ∃ more, rest = "\\" ++ more) → InEffect steps first target
          → Text.lower other = Text.lower first
          → (after steps).resolveName (other ++ rest) = (after steps).resolveName raw := by
  have absolute : ∀ name, WellFormedName name → (after steps).resolveName ("\\" ++ name) = name :=
    fun name named => resolveName_absolute _ named
  have resolved : WellFormedName ((after steps).resolveName raw) := by
    rcases written with named | ⟨name, named, rfl⟩
    · exact (Formed.after formed).resolveName named
    · exact (absolute name named).symm ▸ named
  refine ⟨resolved, fun scope => resolveName_absolute scope resolved, ?_, ?_, ?_⟩
  · rintro before space later rfl others
    rw [after_enter, after_enter]
  · rintro name rfl
    obtain ⟨other, named, same⟩ := written.resolve_left WellFormedName.not_absolute
    obtain rfl : name = other := by simpa using same
    exact absolute name named
  · rintro first other rest target rfl segment ends effect same
    have plain : ∀ c ∈ (first ++ rest).toList, Text.isBlank c = false := by
      rcases written with named | ⟨name, named, absolute⟩
      · exact named.not_blank
      · exact absolute ▸ Text.not_blank_joined (a := "") (by simp) named.not_blank
    exact resolveName_respelled segment ends (fun c member => plain c (by simp [member]))
      (aliases_after.mpr effect) same

def ormSteps : List ScopeStep :=
  [.imports "Legacy\\Database" (some "Db"), .enter "\\App", .imports "\\Vendor\\Orm" (some "Db")]

theorem ormSteps_formed : ∀ step ∈ ormSteps, step.Formed := by
  simp only [ormSteps, List.mem_cons, List.not_mem_nil, or_false]
  rintro step (rfl | rfl | rfl)
  · exact ⟨0, "Legacy" ++ "\\" ++ "Database", by decide,
      .nested (by decide) (.segment (by decide))⟩
  · exact ⟨1, "App", by decide, .inr (.segment (by decide))⟩
  · exact ⟨1, "Vendor" ++ "\\" ++ "Orm", by decide, .nested (by decide) (.segment (by decide))⟩

theorem inEffect_ormSteps : InEffect ormSteps "db" "Vendor\\Orm" :=
  ⟨ormSteps.take 2, "\\Vendor\\Orm", some "Db", [], by rfl, by decide, by decide, by simp⟩

theorem resolved_name_wellFormed_orm
    : WellFormedName ("db" ++ "\\Model") ∧ InEffect ormSteps "db" "Vendor\\Orm"
      ∧ WellFormedName ((after ormSteps).resolveName ("db" ++ "\\Model"))
      ∧ (after ormSteps).resolveName ("DB" ++ "\\Model")
        = (after ormSteps).resolveName ("db" ++ "\\Model") := by
  have named : WellFormedName ("db" ++ "\\Model") :=
    show WellFormedName ("db" ++ "\\" ++ "Model") from .nested (by decide) (.segment (by decide))
  obtain ⟨resolved, -, -, -, respelled⟩ := resolved_name_wellFormed ormSteps_formed (.inl named)
  exact ⟨named, inEffect_ormSteps, resolved, respelled "db" "DB" "\\Model" _ rfl (by decide)
    (.inr ⟨"Model", rfl⟩) inEffect_ormSteps (by decide)⟩

/-- In an absolute name the case of an alias does matter. -/
theorem absolute_name_not_respelled
    : InEffect ormSteps "db" "Vendor\\Orm" ∧ Text.lower "DB" = Text.lower "db"
      ∧ (after ormSteps).resolveName "\\DB\\X" ≠ (after ormSteps).resolveName "\\db\\X" :=
  ⟨inEffect_ormSteps, by decide, by decide +kernel⟩

def typeWords : List String := "self" :: "parent" :: "static" :: "$this" :: scalarWords

def reservedTypes : List String :=
  ["int", "float", "string", "bool", "array", "callable", "iterable", "object", "mixed", "void", "null",
    "false", "true", "never", "self", "parent", "static"]

def swallowedTypes : List String :=
  ["integer", "double", "boolean", "resource", "numeric", "scalar", "$this"]

theorem mem_typeWords_iff {word : String} (free : word ∉ reservedTypes)
    : word ∈ typeWords ↔ word ∈ swallowedTypes := by
  have split : ∀ word ∈ typeWords, word ∈ reservedTypes ∨ word ∈ swallowedTypes := by decide
  have swallowed : ∀ word ∈ swallowedTypes, word ∈ typeWords := by decide
  exact ⟨fun member => (split word member).resolve_left free, swallowed word⟩

/-- A segment names a class as a type unless it is one of the words for types. -/
theorem resolveType_eq_named_iff (scope : NameScope) (h : IsSegment name)
    (plain : name.toList.head? ≠ some '?')
    : scope.resolveType name = .named (scope.resolveName name) ↔ Text.lower name ∉ typeWords := by
  obtain ⟨c, rest, here⟩ := List.exists_cons_of_ne_nil h.ne_nil
  have other : c ≠ '?' := by simpa [here] using plain
  have untrimmed : Text.trimStart (· == '?') (Text.trim name) = name := by
    rw [Text.trim_eq_self h.not_blank, Text.trimStart, here, List.dropWhile_cons_of_neg (by simpa),
      ← here, String.ofList_toList]
  simp only [resolveType, untrimmed]
  split <;> simp_all [typeWords]

/-- A class imported under a name that is not reserved is found where a class is named. Where a type
is, it is found unless the name is one of those that are swallowed. -/
theorem imported_type_named_iff {steps : List ScopeStep} {name target : String}
    (effect : InEffect steps name target) (segment : IsSegment name)
    (plain : name.toList.head? ≠ some '?') (free : Text.lower name ∉ reservedTypes)
    : (after steps).resolveName name = target
      ∧ ((after steps).resolveType name = .named target ↔ Text.lower name ∉ swallowedTypes) := by
  have found : (after steps).resolveName name = target := by
    rw [resolveName_segment _ segment, aliases_after.mpr effect, Option.getD_some]
  have named := resolveType_eq_named_iff (after steps) segment plain
  rw [found, mem_typeWords_iff free] at named
  exact ⟨found, named⟩

theorem imported_type_named_iff_orm
    : InEffect ormSteps "db" "Vendor\\Orm" ∧ Text.lower "db" ∉ reservedTypes
      ∧ (after ormSteps).resolveType "db" = .named "Vendor\\Orm" := by
  have free : Text.lower "db" ∉ reservedTypes := by decide
  have found := imported_type_named_iff inEffect_ormSteps (by decide) (by decide) free
  exact ⟨inEffect_ormSteps, free, found.2.mpr (by decide)⟩

/-- A class imported as `Resource` is not found where a type is named. -/
theorem imported_resource_swallowed
    : InEffect [.enter "App", .imports "Vendor\\Resource" none] "Resource" "Vendor\\Resource"
      ∧ Text.lower "Resource" ∉ reservedTypes
      ∧ (after [.enter "App", .imports "Vendor\\Resource" none]).resolveType "Resource"
        = .scalar "resource" :=
  ⟨⟨[.enter "App"], "Vendor\\Resource", none, [], by rfl, by decide, by decide, by simp⟩,
    by decide, by decide +kernel⟩

end NameScope

end DesignMetrics
