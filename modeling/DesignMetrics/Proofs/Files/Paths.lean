import DesignMetrics.Proofs.Files.Operations

/-! Paths that are put together from names.
Joining a name to a path adds one segment, and taking the last one off again gives the path back. The
extension of a name can be replaced by one with dots in it.
-/

namespace DesignMetrics

namespace Text

section

variable {sep : Char}

theorem go_append (a b part : List Char)
    : splitAll.go sep (a ++ sep :: b) part = splitAll.go sep a part ++ splitAll.go sep b [] := by
  induction a generalizing part with
  | nil => simp [splitAll.go]
  | cons c a ih =>
    by_cases cut : c = sep
    · simp [splitAll.go, cut, ih]
    · simp [splitAll.go, cut, ih]

theorem go_of_notMem {s : List Char} (none : sep ∉ s) (part : List Char)
    : splitAll.go sep s part = [part.reverse ++ s] := by
  induction s generalizing part with
  | nil => simp [splitAll.go]
  | cons c s ih =>
    rw [List.mem_cons, not_or] at none
    obtain ⟨here, later⟩ := none
    simp [splitAll.go, Ne.symm here, ih later]

theorem splitAll_append {mid : String} (cut : mid.toList = [sep]) (a b : String)
    : splitAll sep (a ++ mid ++ b) = splitAll sep a ++ splitAll sep b := by
  simp [splitAll, cut, go_append]

theorem splitAll_of_notMem {s : String} (none : sep ∉ s.toList) : splitAll sep s = [s] := by
  simp [splitAll, go_of_notMem none]

variable (sep) in
theorem go_ne_nil (s part : List Char) : splitAll.go sep s part ≠ [] := by
  induction s generalizing part with
  | nil => simp [splitAll.go]
  | cons c s ih =>
    rw [splitAll.go]
    split
    · simp
    · exact ih _

/-- What was cut can be put together again. -/
theorem intercalate_go (s part : List Char)
    : [sep].intercalate (splitAll.go sep s part) = part.reverse ++ s := by
  induction s generalizing part with
  | nil => simp [splitAll.go]
  | cons c s ih =>
    rw [splitAll.go]
    split
    · rename_i cut
      obtain ⟨next, rest, later⟩ := List.exists_cons_of_ne_nil (go_ne_nil sep s [])
      have tail := ih []
      rw [later] at tail ⊢
      rw [List.intercalate_cons_cons, tail]
      simp [cut]
    · simp [ih]

theorem intercalate_splitAll {mid : String} (cut : mid.toList = [sep]) (s : String)
    : mid.intercalate (splitAll sep s) = s := by
  rw [← String.toList_inj, String.toList_intercalate, cut, splitAll, List.map_map]
  have ids : String.toList ∘ String.ofList = id := funext fun l => String.toList_ofList
  rw [ids, List.map_id, intercalate_go]
  rfl

end

end Text

namespace Path

/-- Whether a text can be a name in a path. -/
structure IsName (name : String) : Prop where
  some : name ≠ ""
  plain : '/' ∉ name.toList
  proper : isDots name = false

variable {name : String}

theorem startsWith_name (h : IsName name) : name.startsWith "/" = false := by
  rw [Bool.eq_false_iff, ne_eq, String.startsWith_string_iff]
  exact fun ⟨rest, whole⟩ => h.plain (by simp [← whole])

theorem endsWith_slash_iff {path : String} : path.endsWith "/" ↔ ∃ before, path = before ++ "/" := by
  rw [String.endsWith_eq_endsWith_toSlice, String.Slice.endsWith_string_iff, String.copy_toSlice]
  constructor
  · rintro ⟨before, whole⟩
    exact ⟨String.ofList before, by rw [← String.toList_inj]; simpa using whole.symm⟩
  · rintro ⟨before, rfl⟩
    exact ⟨before.toList, by simp⟩

theorem splitAll_slash (path : String)
    : Text.splitAll '/' (path ++ "/") = Text.splitAll '/' path ++ [""] := by
  have cut := Text.splitAll_append (show "/".toList = ['/'] from rfl) path ""
  rwa [String.append_empty, Text.splitAll_of_notMem (s := "") (by simp)] at cut

theorem trimFiller_cons {segment : String} (other : isFiller segment = false) (rest : List String)
    : trimFiller (segment :: rest) = segment :: rest := by
  cases rest <;> simp [trimFiller, other]

section

variable (h : IsName name)

include h

/-- What joining a name does to the pieces between slashes. -/
theorem splitAll_join (base : String)
    : ∃ init, Text.splitAll '/' (join base name) = init ++ [name]
      ∧ init.filter (!·.isEmpty) = segments base := by
  have single := Text.splitAll_of_notMem h.plain
  unfold join segments
  simp only [startsWith_name h, Bool.false_or]
  split
  · rename_i empty
    obtain rfl := String.isEmpty_iff.mp empty
    exact ⟨[], single, by decide⟩
  · split
    · rename_i slash
      obtain ⟨before, rfl⟩ := endsWith_slash_iff.mp slash
      refine ⟨Text.splitAll '/' before, ?_, ?_⟩
      · rw [Text.splitAll_append rfl, single]
      · simp [splitAll_slash]
    · exact ⟨Text.splitAll '/' base, by rw [Text.splitAll_append rfl, single], rfl⟩

theorem segments_join (base : String)
    : segments (join base name) = segments base ++ [name] := by
  obtain ⟨init, pieces, kept⟩ := splitAll_join h base
  rw [segments, pieces, List.filter_append, kept]
  simp [h.some]

theorem startsWith_join (base : String)
    : (join base name).startsWith "/" = base.startsWith "/" := by
  have longer (more : String) (some : base ≠ "")
      : (base ++ more).startsWith "/" = base.startsWith "/" := by
    rw [Bool.eq_iff_iff, String.startsWith_string_iff, String.startsWith_string_iff, String.toList_append]
    obtain ⟨c, rest, whole⟩ := List.exists_cons_of_ne_nil (mt String.toList_eq_nil_iff.mp some)
    simp [whole]
  unfold join
  simp only [startsWith_name h, Bool.false_or, String.isEmpty_iff]
  split
  · rename_i empty
    rw [empty, startsWith_name h]
    rfl
  · rename_i some
    split
    · exact longer name some
    · rw [String.append_assoc]
      exact longer _ some

theorem segmentsFrom_join (working : List String) (base : String)
    : segmentsFrom working (join base name) = segmentsFrom working base ++ [name] := by
  unfold segmentsFrom
  rw [startsWith_join h, segments_join h]
  split
  · rfl
  · rw [List.append_assoc]

theorem endsWith_join (base : String) : (join base name).endsWith "/" = false := by
  obtain ⟨init, pieces, _⟩ := splitAll_join h base
  rw [Bool.eq_false_iff, ne_eq, endsWith_slash_iff]
  rintro ⟨before, whole⟩
  rw [whole, splitAll_slash] at pieces
  have last : [""] = [name] := List.append_inj_right' pieces rfl
  exact h.some (List.singleton_inj.mp last).symm

theorem isFiller_name : isFiller name = false := by
  simp [isFiller, h.some, isDots_eq_false.mp h.proper]

theorem part?_name : part? false name = some (.name name) := by
  simp [part?, h.some, isDots_eq_false.mp h.proper]

/-- The last part of a path is the name behind its last slash. -/
theorem exists_parts {path : String} {before : List String} (some : before ≠ [])
    (pieces : Text.splitAll '/' path = before ++ [name])
    : ∃ front, parts path = front ++ [.name name] := by
  obtain ⟨first, mid, rfl⟩ := List.exists_cons_of_ne_nil some
  unfold parts
  rw [pieces]
  simp only [List.cons_append, List.filterMap_append, List.filterMap_cons, part?_name h,
    List.filterMap_nil]
  split
  · exact ⟨.root :: mid.filterMap (part? false), rfl⟩
  · exact ⟨_, (List.append_assoc ..).symm⟩

end

/-- The parts of a path that is not empty, by the pieces between its slashes. -/
theorem parts_eq {path first : String} {rest : List String} (some : path ≠ "")
    (pieces : Text.splitAll '/' path = first :: rest)
    : parts path = (if first.isEmpty then [.root] else (part? true first).toList)
        ++ rest.filterMap (part? false) := by
  unfold parts
  rw [pieces]
  by_cases root : first.isEmpty <;> simp [root, some]

/-- Joining a name adds one part. -/
theorem parts_join (h : IsName name) {base : String} (some : base ≠ "")
    : parts (join base name) = parts base ++ [.name name] := by
  have single := Text.splitAll_of_notMem h.plain
  -- a slash at the end of the path makes a last piece that is no part
  obtain ⟨first, rest, blank, pieces, joined, quiet⟩ : ∃ first rest blank,
      Text.splitAll '/' base = first :: (rest ++ blank)
        ∧ Text.splitAll '/' (join base name) = first :: (rest ++ [name])
        ∧ blank.filterMap (part? false) = [] := by
    have cut (path : String) : ∃ first rest, Text.splitAll '/' path = first :: rest :=
      List.exists_cons_of_ne_nil (by simp [Text.splitAll, Text.go_ne_nil])
    unfold join
    simp only [startsWith_name h, Bool.false_or, String.isEmpty_iff, some, if_false]
    split
    · rename_i slash
      obtain ⟨before, rfl⟩ := endsWith_slash_iff.mp slash
      obtain ⟨first, rest, pieces⟩ := cut before
      refine ⟨first, rest, [""], ?_, ?_, by decide⟩
      · rw [splitAll_slash, pieces, List.cons_append]
      · rw [Text.splitAll_append rfl, single, pieces, List.cons_append]
    · obtain ⟨first, rest, pieces⟩ := cut base
      refine ⟨first, rest, [], by rw [pieces, List.append_nil], ?_, rfl⟩
      rw [Text.splitAll_append rfl, single, pieces, List.cons_append]
  have filled : join base name ≠ "" := by
    intro empty
    rw [empty, Text.splitAll_of_notMem (by simp)] at joined
    simp at joined
  rw [parts_eq filled joined, parts_eq some pieces, List.filterMap_append, List.filterMap_append, quiet]
  simp [part?_name h]

section

variable {folder : String} (h : IsName folder) (h' : IsName name) (root : String)

include h h'

/-- The pieces of a path that ends in two names. -/
theorem splitAll_join_join
    : ∃ init, Text.splitAll '/' (join root folder) = init ++ [folder]
      ∧ Text.splitAll '/' (join (join root folder) name) = init ++ [folder] ++ [name] := by
  obtain ⟨init, pieces, _⟩ := splitAll_join h root
  have some : join root folder ≠ "" := by
    intro empty
    rw [empty, Text.splitAll_of_notMem (by simp)] at pieces
    obtain ⟨_, last⟩ := List.append_inj' (show [] ++ [""] = init ++ [folder] from pieces) rfl
    exact h.some (List.singleton_inj.mp last).symm
  have joined : join (join root folder) name = join root folder ++ "/" ++ name := by
    simp [join.eq_1 (join root folder), startsWith_name h', endsWith_join h root, some]
  refine ⟨init, pieces, ?_⟩
  rw [joined, Text.splitAll_append rfl, pieces, Text.splitAll_of_notMem h'.plain]

/-- Taking off a name that was joined gives the path back. -/
theorem parent?_join : parent? (join (join root folder) name) = some (join root folder) := by
  obtain ⟨init, outer, pieces⟩ := splitAll_join_join h h' root
  obtain ⟨front, listed⟩ := exists_parts h' (by simp) pieces
  have turned : trimFiller (init ++ [folder] ++ [name]).reverse = name :: folder :: init.reverse := by
    simp only [List.reverse_append, List.reverse_singleton, List.singleton_append]
    exact trimFiller_cons (isFiller_name h') _
  have known : ((parts (join (join root folder) name)).isEmpty
      || parts (join (join root folder) name) = [.root]) = false := by
    rw [listed]
    cases front <;> simp
  have whole : "/".intercalate (folder :: init.reverse).reverse = join root folder := by
    rw [List.reverse_cons, List.reverse_reverse, ← outer]
    exact Text.intercalate_splitAll rfl _
  rw [parent?, known, if_neg Bool.false_ne_true, pieces, turned]
  dsimp only
  rw [trimFiller_cons (isFiller_name h)]
  split
  · rename_i last
    exact absurd (List.cons.inj last).1 h.some
  · rw [whole]

theorem fileName?_join : fileName? (join (join root folder) name) = some name := by
  obtain ⟨init, _, pieces⟩ := splitAll_join_join h h' root
  obtain ⟨front, listed⟩ := exists_parts h' (by simp) pieces
  simp [fileName?, listed]

end

/-- Another extension stands behind what the name was before its last dot. -/
theorem withExtension_join {folder stem old : String} (h : IsName folder)
    (h' : IsName (stem ++ "." ++ old)) (some : stem ≠ "") (plain : '.' ∉ old.toList)
    (root extension : String)
    : withExtension (join (join root folder) (stem ++ "." ++ old)) extension
      = join (join root folder) (stem ++ "." ++ extension) := by
  have cut := Text.splitLast?_append (show ".".toList = ['.'] from rfl) stem plain
  simp only [withExtension, fileName?_join h h', cut, parent?_join h h', Option.getD_some]
  rw [if_neg (by simpa using some)]

def location (working : List String) (path : String) : List String :=
  (segmentsFrom working path).foldl step []

/-- A path that ends in two names leads to the second, in a folder with the first. -/
theorem leadsTo_join {folder : String} (h : IsName folder) (h' : IsName name) (working : List String)
    (root : String)
    : LeadsTo working (join (join root folder) name) (location working root ++ [folder]) name where
  segments := by
    refine ⟨segmentsFrom working root ++ [folder], ?_, ?_⟩
    · rw [segmentsFrom_join h', segmentsFrom_join h]
    · rw [List.foldl_append, List.foldl_cons, List.foldl_nil, step_name h.proper]
      rfl
  proper := h'.proper
  plain := endsWith_join h' _

end Path

end DesignMetrics
