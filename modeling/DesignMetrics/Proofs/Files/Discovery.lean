import Mathlib.Data.List.Nodup
import DesignMetrics.Files.Collect
import DesignMetrics.Proofs.Files.Paths

/-! What a search for files finds.
A path gives back the names that it is made of, so no two files have paths of the same rank, and the
result depends on what the tree holds and not on how its directories are ordered.
-/

namespace DesignMetrics

-- Paths in order

namespace PathPart

instance : Std.TransOrd PathPart :=
  inferInstanceAs (Std.TransCmp (compareLex (compareOn rank) (compareOn text)))

instance : Std.LawfulEqOrd PathPart where
  compare_self {a} := Std.ReflCmp.compare_self
  eq_of_compare {a b} h := by
    obtain ⟨ranks, texts⟩ :=
      compareLex_eq_eq.mp (show compareLex (compareOn rank) (compareOn text) a b = .eq from h)
    have ranks : a.rank = b.rank := Std.LawfulEqCmp.eq_of_compare ranks
    have texts : a.text = b.text := Std.LawfulEqCmp.eq_of_compare texts
    cases a <;> cases b <;> simp_all [rank, text]

end PathPart

namespace Path

theorem compare_swap (a b : String) : compare a b = (compare b a).swap :=
  show Ord.compare (parts a) (parts b) = (Ord.compare (parts b) (parts a)).swap from
    Std.OrientedCmp.eq_swap

/-- Sorting puts paths in the order of their parts. -/
theorem pairwise_mergeSort (paths : List String)
    : (paths.mergeSort fun a b => (compare a b).isLE).Pairwise fun a b => (compare a b).isLE := by
  apply List.pairwise_mergeSort
  · intro a b c
    show (Ord.compare (parts a) (parts b)).isLE → (Ord.compare (parts b) (parts c)).isLE
      → (Ord.compare (parts a) (parts c)).isLE
    exact Std.TransCmp.isLE_trans
  · intro a b
    rw [compare_swap b a]
    cases compare a b <;> rfl

/-- Paths in strict order are determined by which they are. -/
theorem eq_of_sorted {paths others : List String}
    (left : paths.Pairwise fun a b => compare a b = .lt)
    (right : others.Pairwise fun a b => compare a b = .lt)
    (members : ∀ path, path ∈ paths ↔ path ∈ others) : paths = others := by
  have asymm {a b : String} (less : compare a b = .lt) : compare b a ≠ .lt := by
    rw [compare_swap, less]
    simp
  have distinct {l : List String} (h : l.Pairwise fun a b => compare a b = .lt) : l.Nodup := by
    refine List.Pairwise.imp ?_ h
    rintro a b less rfl
    exact asymm less less
  have perm := (List.perm_ext_iff_of_nodup (distinct left) (distinct right)).mpr members
  exact perm.eq_of_pairwise (fun a b _ _ less more => absurd more (asymm less)) left right

end Path

namespace Text

/-- A text has no separator or a last one. -/
theorem last_cases (sep : Char) (s : String)
    : sep ∉ s.toList ∨ ∃ a b, sep ∉ b.toList ∧ s = a ++ String.singleton sep ++ b := by
  by_cases there : sep ∈ s.toList.reverse
  · obtain ⟨after, before, whole, none⟩ := List.eq_append_cons_of_mem there
    refine .inr ⟨String.ofList before.reverse, String.ofList after.reverse, by simpa using none, ?_⟩
    rw [← String.toList_inj]
    simpa using congrArg List.reverse whole
  · exact .inl (by simpa using there)

end Text

namespace Path

/-- The extension of a file name is what follows its last dot, unless this dot starts the name. A name
without such a dot has the empty extension. -/
inductive IsExtension (name : String) : String → Prop
  | dotted {stem after : String} (some : stem ≠ "") (last : '.' ∉ after.toList)
      (whole : name = stem ++ "." ++ after)
    : IsExtension name after
  | bare (none : ∀ stem after, '.' ∉ after.toList → name = stem ++ "." ++ after → stem = "")
    : IsExtension name ""

variable {name path : String}

/-- A path has the extension of its file name. -/
theorem isExtension_iff (file : fileName? path = some name) {e : String}
    : IsExtension name e ↔ (extension? path).getD "" = e := by
  have cut {stem after : String} (last : '.' ∉ after.toList) (whole : name = stem ++ "." ++ after)
      : extension? path = if stem.isEmpty then none else some after := by
    have parts := Text.splitLast?_append (show ".".toList = ['.'] from rfl) stem last
    rw [← whole] at parts
    simp [extension?, file, parts]
  constructor
  · intro h
    cases h with
    | dotted some last whole => simp [cut last whole, some]
    | bare none =>
      rcases Text.last_cases '.' name with plain | ⟨stem, after, last, whole⟩
      · simp [extension?, file, Text.splitLast?_of_notMem plain]
      · simp [cut last whole, none stem after last whole]
  · rintro rfl
    rcases Text.last_cases '.' name with plain | ⟨stem, after, last, whole⟩
    · have empty : extension? path = none := by
        simp [extension?, file, Text.splitLast?_of_notMem plain]
      rw [empty]
      exact .bare fun stem after _ whole => absurd (by simp [whole]) plain
    · by_cases start : stem = ""
      · rw [cut last whole, start]
        refine .bare fun stem' after' last' whole' => ?_
        -- the last dot is the first character
        have same := Text.splitLast?_append (show ".".toList = ['.'] from rfl) stem' last'
        rw [← whole', whole, Text.splitLast?_append rfl stem last, start] at same
        exact (Prod.mk.inj (Option.some.inj same)).1.symm
      · rw [cut last whole, if_neg (by simpa using start)]
        exact .dotted start last whole

end Path

variable {path : String}

theorem Config.excludes_eq_false {c : Config}
    : c.excludes path = false
      ↔ ∀ pattern ∈ c.excludedPaths, ∀ glob, Glob.ofString pattern = .ok glob
        → glob.isMatch path = false := by
  simp only [excludes, List.any_eq_false]
  refine forall₂_congr fun pattern _ => ?_
  cases Glob.ofString pattern <;> simp

instance (name : String) : Decidable (Path.IsName name) :=
  decidable_of_iff (name ≠ "" ∧ '/' ∉ name.toList ∧ Path.isDots name = false)
    ⟨fun h => ⟨h.1, h.2.1, h.2.2⟩, fun h => ⟨h.some, h.plain, h.proper⟩⟩

namespace FileEntry

-- Trees by their entries

/-- What holds of files, and of directories if it holds of their entries, holds of all trees. -/
theorem entryInduction {P : FileEntry → Prop} (file : ∀ content, P (.file content))
    (directory : ∀ es : FileEntries, (∀ e ∈ es, P e.2) → P (.directory es))
    (t : FileEntry) : P t := by
  induction size : sizeOf t using Nat.strongRecOn generalizing t with
  | ind n ih =>
    cases t with
    | file content => exact file content
    | directory es =>
      refine directory es fun e member => ih (sizeOf e.2) ?_ e.2 rfl
      have less := List.sizeOf_lt_of_mem member
      obtain ⟨name, sub⟩ := e
      simp at size less ⊢
      omega

mutual

def isWellNamed : FileEntry → Bool
  | file _ => true
  | directory es => decide (es.map Prod.fst).Nodup && entriesWellNamed es

def entriesWellNamed : FileEntries → Bool
  | [] => true
  | (name, sub) :: rest => decide (Path.IsName name) && sub.isWellNamed && entriesWellNamed rest

end

variable {name : String}

section

variable {es : FileEntries} {t sub : FileEntry} {names : List String}

theorem isWellNamed_directory
    : (directory es).isWellNamed
      ↔ (es.map Prod.fst).Nodup ∧ ∀ e ∈ es, Path.IsName e.1 ∧ e.2.isWellNamed := by
  rw [isWellNamed, Bool.and_eq_true, decide_eq_true_eq]
  refine and_congr_right fun _ => ?_
  clear * -
  induction es with
  | nil => simp [entriesWellNamed]
  | cons e es ih => simp [entriesWellNamed, ih, and_assoc]

/-- In a directory with different names, each entry is the one with its name. -/
theorem child?_eq_some_iff (distinct : (es.map Prod.fst).Nodup)
    : (directory es).child? name = some sub ↔ (name, sub) ∈ es := by
  simp only [child?, entries]
  induction es with
  | nil => simp
  | cons e es ih =>
    obtain ⟨other, here⟩ := e
    simp only [List.map_cons, List.nodup_cons] at distinct
    by_cases same : other = name
    · subst same
      have later : (other, sub) ∉ es := fun member => distinct.1 (List.mem_map_of_mem member)
      simp [later, eq_comm]
    · simp [same, ih distinct.2, Ne.symm same]

/-- What names lead to in a well-named tree is well-named, and so are the names. -/
theorem isWellNamed_at? (named : t.isWellNamed) (found : t.at? names = some sub)
    : sub.isWellNamed ∧ ∀ name ∈ names, Path.IsName name := by
  induction names generalizing t with
  | nil =>
    obtain rfl := Option.some.inj found
    exact ⟨named, by simp⟩
  | cons name names ih =>
    obtain ⟨next, child, below⟩ := Option.bind_eq_some_iff.mp found
    cases t with
    | file content => simp [child?, entries] at child
    | directory es =>
      obtain ⟨distinct, each⟩ := isWellNamed_directory.mp named
      obtain ⟨proper, inner⟩ := each _ ((child?_eq_some_iff distinct).mp child)
      obtain ⟨last, others⟩ := ih inner below
      exact ⟨last, by simpa using ⟨proper, others⟩⟩

theorem isDirectory_of_at?_cons (found : t.at? (name :: names) = some sub) : t.isDirectory := by
  cases t with
  | file content => simp [at?, child?, entries] at found
  | directory es => rfl

-- The walk

theorem visibleEntries_eq (es : FileEntries)
    : visibleEntries es = es.flatMap fun e =>
        if e.2.isDirectory && isPassedOver e.1 then [] else e.2.visibleFiles.map (e.1 :: ·) := by
  induction es with
  | nil => rfl
  | cons e es ih => rw [visibleEntries, ih, List.flatMap_cons]

theorem directoriesIn_eq (es : FileEntries)
    : directoriesIn es = es.flatMap fun e =>
        if isPassedOver e.1 then [] else e.2.visibleDirectories.map (e.1 :: ·) := by
  induction es with
  | nil => rfl
  | cons e es ih => rw [directoriesIn, ih, List.flatMap_cons]

/-- What is listed for the entries of a directory, each under its name and some passed over. -/
theorem cons_mem_flatMap_iff (distinct : (es.map Prod.fst).Nodup) {skip : String × FileEntry → Bool}
    {list : FileEntry → List (List String)}
    : name :: names ∈ es.flatMap (fun e => if skip e then [] else (list e.2).map (e.1 :: ·))
      ↔ ∃ sub, (directory es).child? name = some sub ∧ skip (name, sub) = false
        ∧ names ∈ list sub := by
  simp only [List.mem_flatMap, child?_eq_some_iff distinct]
  constructor
  · rintro ⟨⟨_, sub⟩, member, there⟩
    split at there
    · simp at there
    · rename_i kept
      simp only [List.mem_map, List.cons.injEq] at there
      obtain ⟨_, inside, rfl, rfl⟩ := there
      exact ⟨sub, member, by simpa using kept, inside⟩
  · rintro ⟨sub, member, kept, inside⟩
    refine ⟨(name, sub), member, ?_⟩
    rw [if_neg (by simp [kept])]
    exact List.mem_map_of_mem inside

/-- The files that a walk comes to are those with no directory to pass over on the way, by induction on
the names that lead there. -/
theorem mem_visibleFiles_iff (named : t.isWellNamed)
    : names ∈ t.visibleFiles
      ↔ ∃ content, t.at? names = some (.file content)
        ∧ ∀ folder ∈ names.dropLast, isPassedOver folder = false := by
  induction names generalizing t with
  | nil =>
    cases t with
    | file content => simp [visibleFiles]
    | directory es => simp [visibleFiles, visibleEntries_eq]
  | cons name names ih =>
    cases t with
    | file content => simp [visibleFiles, at?, child?, entries]
    | directory es =>
      obtain ⟨distinct, each⟩ := isWellNamed_directory.mp named
      rw [visibleFiles, visibleEntries_eq, cons_mem_flatMap_iff distinct]
      constructor
      · rintro ⟨sub, child, kept, inside⟩
        have inner := (each _ ((child?_eq_some_iff distinct).mp child)).2
        obtain ⟨content, found, others⟩ := (ih inner).mp inside
        refine ⟨content, by rw [at?, child]; exact found, ?_⟩
        cases names with
        | nil => simp
        | cons next names =>
          have first : isPassedOver name = false := by
            simpa [isDirectory_of_at?_cons found] using kept
          simpa [first] using others
      · rintro ⟨content, found, others⟩
        obtain ⟨sub, child, found⟩ := Option.bind_eq_some_iff.mp found
        have inner := (each _ ((child?_eq_some_iff distinct).mp child)).2
        cases names with
        | nil =>
          obtain rfl := Option.some.inj found
          exact ⟨_, child, rfl, (ih inner).mpr ⟨content, rfl, by simp⟩⟩
        | cons next names =>
          obtain ⟨first, rest⟩ := List.forall_mem_cons.mp others
          exact ⟨sub, child, by simp [first], (ih inner).mpr ⟨content, found, rest⟩⟩

/-- The directories that a walk goes into are those with no directory to pass over on the way. -/
theorem mem_visibleDirectories_iff (named : t.isWellNamed)
    : names ∈ t.visibleDirectories
      ↔ t.kindAt? names = some .directory ∧ ∀ folder ∈ names, isPassedOver folder = false := by
  induction names generalizing t with
  | nil =>
    cases t with
    | file content => simp [visibleDirectories, kind]
    | directory es => simp [visibleDirectories, kind]
  | cons name names ih =>
    rw [kindAt?_cons]
    cases t with
    | file content => simp [visibleDirectories, child?, entries]
    | directory es =>
      obtain ⟨distinct, each⟩ := isWellNamed_directory.mp named
      have other : name :: names ≠ [] := List.cons_ne_nil name names
      rw [visibleDirectories, directoriesIn_eq, List.mem_cons, or_iff_right other,
        cons_mem_flatMap_iff distinct, List.forall_mem_cons]
      cases child : (directory es).child? name with
      | none => simp
      | some sub =>
        have inner := (each _ ((child?_eq_some_iff distinct).mp child)).2
        simp [ih inner, and_left_comm]

/-- No file is listed twice. -/
theorem nodup_visibleFiles (named : t.isWellNamed) : t.visibleFiles.Nodup := by
  induction t using entryInduction with
  | file content => simp [visibleFiles]
  | directory es ih =>
    obtain ⟨distinct, each⟩ := isWellNamed_directory.mp named
    rw [visibleFiles, visibleEntries_eq, List.nodup_flatMap]
    constructor
    · intro e member
      split
      · exact .nil
      · exact (ih e member (each e member).2).map fun _ _ same => (List.cons.inj same).2
    · refine (List.pairwise_map.mp distinct).imp fun {a b} apart => ?_
      -- lists under different names have different first names
      have first {e : String × FileEntry} {names : List String}
          (listed : names ∈ if e.2.isDirectory && isPassedOver e.1 then []
            else e.2.visibleFiles.map (e.1 :: ·)) : names.head? = some e.1 := by
        split at listed
        · simp at listed
        · obtain ⟨_, _, rfl⟩ := List.mem_map.mp listed
          rfl
      intro names left right
      exact apart (Option.some.inj ((first left).symm.trans (first right)))

end

-- Paths of files

section

variable {root : String} {names : List String}

/-- A path that names lead to has them as its last parts. -/
theorem parts_pathFrom (some : root ≠ "") (proper : ∀ name ∈ names, Path.IsName name)
    : Path.parts (pathFrom root names) = Path.parts root ++ names.map .name := by
  induction names generalizing root with
  | nil => simp [pathFrom]
  | cons name names ih =>
    obtain ⟨first, rest⟩ := List.forall_mem_cons.mp proper
    have joined := Path.parts_join first some
    have filled : Path.join root name ≠ "" := by
      intro empty
      rw [empty] at joined
      exact absurd joined (by simp [show Path.parts "" = [] from by decide])
    have below := ih filled rest
    rw [joined] at below
    simpa [pathFrom] using below

/-- Paths of the same rank come from the same names. -/
theorem eq_of_compare_pathFrom (some : root ≠ "") {others : List String}
    (left : ∀ name ∈ names, Path.IsName name) (right : ∀ name ∈ others, Path.IsName name)
    (same : Path.compare (pathFrom root names) (pathFrom root others) = .eq) : names = others := by
  have parts : Path.parts (pathFrom root names) = Path.parts (pathFrom root others) :=
    Std.LawfulEqCmp.eq_of_compare same
  rw [parts_pathFrom some left, parts_pathFrom some right] at parts
  exact List.map_injective_iff.mpr (fun _ _ => PathPart.name.inj) (List.append_cancel_left parts)

/-- Whether every directory that a walk from a root goes into can be read: its path is not too long. -/
def Readable (t : FileEntry) (root : String) : Prop :=
  ∀ names, t.kindAt? names = some .directory → (∀ folder ∈ names, isPassedOver folder = false)
    → Path.isTooLong (pathFrom root names) = false

theorem readable_iff {t : FileEntry} (named : t.isWellNamed)
    : t.Readable root
      ↔ ∀ names ∈ t.visibleDirectories, Path.isTooLong (pathFrom root names) = false := by
  simp only [Readable, mem_visibleDirectories_iff named, and_imp]

/-- A search of a directory that can be read gives the paths of the files that a walk comes to and that
are wanted, in strict order. -/
theorem collect_walk {t : FileTree} {sub : FileEntry} (found : t.find root = .ok sub)
    (named : sub.isWellNamed) (some : root ≠ "") (readable : sub.Readable root) (c : Config)
    : ∃ paths, t.collect c root = .ok paths
      ∧ paths.Pairwise (fun a b => Path.compare a b = .lt)
      ∧ ∀ path, path ∈ paths
        ↔ ∃ names ∈ sub.visibleFiles, isWanted c root names ∧ pathFrom root names = path := by
  have short : (sub.visibleDirectories.map (pathFrom root)).find? Path.isTooLong = none := by
    rw [List.find?_eq_none]
    intro path listed
    obtain ⟨names, member, rfl⟩ := List.mem_map.mp listed
    simp [(readable_iff named).mp readable names member]
  have proper {names : List String} (member : names ∈ sub.visibleFiles)
      : ∀ name ∈ names, Path.IsName name := by
    obtain ⟨_, there, _⟩ := (mem_visibleFiles_iff named).mp member
    exact (isWellNamed_at? named there).2
  let paths := (sub.visibleFiles.filter (isWanted c root)).map (pathFrom root)
  have made {path : String} : path ∈ paths
      ↔ ∃ names ∈ sub.visibleFiles, isWanted c root names ∧ pathFrom root names = path := by
    simp [paths, and_assoc]
  have same {a b : String} (left : a ∈ paths) (right : b ∈ paths) (rank : Path.compare a b = .eq)
      : a = b := by
    obtain ⟨names, member, _, rfl⟩ := made.mp left
    obtain ⟨names', member', _, rfl⟩ := made.mp right
    rw [eq_of_compare_pathFrom some (proper member) (proper member') rank]
  have distinct : paths.Nodup := by
    refine List.Nodup.map_on ?_ ((nodup_visibleFiles named).filter _)
    intro names member names' member' equal
    refine eq_of_compare_pathFrom some (proper (List.mem_filter.mp member).1)
      (proper (List.mem_filter.mp member').1) ?_
    rw [equal]
    show Ord.compare (Path.parts _) (Path.parts _) = .eq
    exact Std.ReflCmp.compare_self
  have sorted := List.mergeSort_perm paths fun a b => (Path.compare a b).isLE
  refine ⟨paths.mergeSort fun a b => (Path.compare a b).isLE, ?_, ?_, fun path => ?_⟩
  · simp only [FileTree.collect, found, short]
    rfl
  · have apart := sorted.nodup_iff.mpr distinct
    refine (Path.pairwise_mergeSort paths).and apart |>.imp_of_mem fun {a b} left right both => ?_
    have different : Path.compare a b ≠ .eq := fun rank =>
      both.2 (same (sorted.mem_iff.mp left) (sorted.mem_iff.mp right) rank)
    have ordered := both.1
    cases rank : Path.compare a b <;> simp_all
  · rw [sorted.mem_iff, made]

/-- Whether a configuration asks for the file `name` in the folders that lead to it from a root. -/
structure Sought (c : Config) (root : String) (folders : List String) (name : String) : Prop where
  extension : ∃ e ∈ c.extensions, ∃ own, Path.IsExtension name own ∧ Text.lower e = Text.lower own
  visible : ∀ folder ∈ folders, folder ≠ "vendor" ∧ ¬ ∃ rest, folder = "." ++ rest
  included : ∀ pattern ∈ c.excludedPaths, ∀ glob, Glob.ofString pattern = .ok glob
    → glob.isMatch ("/".intercalate (folders ++ [name])) = false
      ∧ glob.isMatch (pathFrom root (folders ++ [name])) = false

theorem isPassedOver_eq_false {folder : String}
    : isPassedOver folder = false ↔ folder ≠ "vendor" ∧ ¬ ∃ rest, folder = "." ++ rest := by
  have hidden : folder.startsWith "." ↔ ∃ rest, folder = "." ++ rest := by
    rw [String.startsWith_string_iff]
    constructor
    · rintro ⟨rest, whole⟩
      exact ⟨String.ofList rest, by rw [← String.toList_inj]; simpa using whole.symm⟩
    · rintro ⟨rest, rfl⟩
      exact ⟨rest.toList, by simp⟩
  rw [← hidden]
  simp [isPassedOver]

/-- A file is sought if it is wanted and in no directory to pass over. -/
theorem sought_iff {c : Config} {folders : List String} (some : root ≠ "")
    (proper : ∀ part ∈ folders ++ [name], Path.IsName part)
    : Sought c root folders name
      ↔ isWanted c root (folders ++ [name])
        ∧ ∀ folder ∈ folders, isPassedOver folder = false := by
  have file : Path.fileName? (pathFrom root (folders ++ [name])) = .some name := by
    simp [Path.fileName?, parts_pathFrom some proper]
  have extension : c.hasExtension (pathFrom root (folders ++ [name]))
      ↔ ∃ e ∈ c.extensions, ∃ own, Path.IsExtension name own ∧ Text.lower e = Text.lower own := by
    simp only [Config.hasExtension, List.any_eq_true, Text.sameFolded, beq_iff_eq,
      Path.isExtension_iff file, exists_eq_left']
    exact exists_congr fun e => and_congr_right fun _ => eq_comm
  rw [isWanted, Bool.and_eq_true, Bool.and_eq_true, extension, Bool.not_eq_true', Bool.not_eq_true',
    Config.excludes_eq_false, Config.excludes_eq_false]
  simp only [isPassedOver_eq_false]
  constructor
  · intro h
    exact ⟨⟨⟨h.extension, fun pattern member glob read => (h.included pattern member glob read).1⟩,
      fun pattern member glob read => (h.included pattern member glob read).2⟩, h.visible⟩
  · rintro ⟨⟨⟨extension, relative⟩, full⟩, visible⟩
    exact ⟨extension, visible, fun pattern member glob read =>
      ⟨relative pattern member glob read, full pattern member glob read⟩⟩

end

-- Directories in another order

/-- Whether trees differ at most in the order in which their directories list the entries. -/
inductive Reordered : FileEntry → FileEntry → Prop
  | file (content : ByteArray) : Reordered (.file content) (.file content)
  | directory {es fs gs : FileEntries} (names : es.map Prod.fst = fs.map Prod.fst)
      (each : List.Forall₂ Reordered (es.map Prod.snd) (fs.map Prod.snd)) (order : fs.Perm gs)
    : Reordered (.directory es) (.directory gs)

section

variable {t u sub : FileEntry}

theorem Reordered.refl (t : FileEntry) : t.Reordered t := by
  induction t using entryInduction with
  | file content => exact .file content
  | directory es ih =>
    refine .directory rfl (List.forall₂_same.mpr fun sub member => ?_) (.refl es)
    obtain ⟨e, inside, rfl⟩ := List.mem_map.mp member
    exact ih e inside

/-- Each entry has one with its name in the other tree, and the other way round. -/
theorem Reordered.entries {es fs : FileEntries}
    (names : es.map Prod.fst = fs.map Prod.fst)
    (each : List.Forall₂ Reordered (es.map Prod.snd) (fs.map Prod.snd))
    : (∀ e ∈ es, ∃ f ∈ fs, f.1 = e.1 ∧ e.2.Reordered f.2)
      ∧ ∀ f ∈ fs, ∃ e ∈ es, f.1 = e.1 ∧ e.2.Reordered f.2 := by
  induction es generalizing fs with
  | nil =>
    obtain rfl : fs = [] := by simpa using names
    simp
  | cons e es ih =>
    cases fs with
    | nil => simp at names
    | cons f fs =>
      obtain ⟨first, others⟩ := List.cons.inj names
      obtain ⟨here, later⟩ := List.forall₂_cons.mp each
      obtain ⟨left, right⟩ := ih others later
      constructor
      · rintro d (_ | ⟨_, member⟩)
        · exact ⟨f, by simp, first.symm, here⟩
        · obtain ⟨g, there, found⟩ := left d member
          exact ⟨g, by simp [there], found⟩
      · rintro g (_ | ⟨_, member⟩)
        · exact ⟨e, by simp, first.symm, here⟩
        · obtain ⟨d, there, found⟩ := right g member
          exact ⟨d, by simp [there], found⟩

/-- Trees that differ in the order of entries have the same at every place. -/
theorem Reordered.kindAt?_eq (h : t.Reordered u) (named : t.isWellNamed)
    : u.isWellNamed ∧ ∀ names, u.kindAt? names = t.kindAt? names := by
  induction t using entryInduction generalizing u with
  | file content =>
    cases h
    exact ⟨rfl, fun _ => rfl⟩
  | directory es ih =>
    cases h with
    | @directory _ fs gs same each order =>
      obtain ⟨distinct, proper⟩ := isWellNamed_directory.mp named
      obtain ⟨left, right⟩ := Reordered.entries same each
      have distinct' : (gs.map Prod.fst).Nodup := (order.map _).nodup_iff.mp (same ▸ distinct)
      refine ⟨isWellNamed_directory.mpr ⟨distinct', fun g member => ?_⟩, fun names => ?_⟩
      · obtain ⟨e, there, name, related⟩ := right g (order.mem_iff.mpr member)
        obtain ⟨first, inner⟩ := proper e there
        exact ⟨name ▸ first, (ih e there related inner).1⟩
      · cases names with
        | nil => rfl
        | cons name names =>
          rw [kindAt?_cons, kindAt?_cons]
          cases child : (FileEntry.directory es).child? name with
          | some sub =>
            have member := (child?_eq_some_iff distinct).mp child
            obtain ⟨⟨_, sub'⟩, there, rfl, related⟩ := left _ member
            rw [(child?_eq_some_iff distinct').mpr (order.mem_iff.mp there)]
            exact (ih _ member related (proper _ member).2).2 names
          | none =>
            cases child' : (FileEntry.directory gs).child? name with
            | none => rfl
            | some sub' =>
              have member := order.mem_iff.mpr ((child?_eq_some_iff distinct').mp child')
              obtain ⟨⟨_, sub⟩, there, rfl, _⟩ := right _ member
              simp [(child?_eq_some_iff distinct).mpr there] at child

end

end FileEntry

namespace FileTree

open FileEntry

section

variable {t u : FileTree} {sub : FileEntry} {path : String}

/-- A path leads to what stands at the end of its route, if the last name is not too long and no file is
asked for as a directory. -/
theorem find_eq_ok_iff {r : Route} (ran : t.route path = .ok r)
    : t.find path = .ok sub
      ↔ Path.isShort r.last
        ∧ t.top.at? (Path.step r.spot.names r.last) = some sub
        ∧ (r.slash → sub.kind = .directory) := by
  rw [find, ran]
  show (r.found? >>= _) = _ ↔ _
  rw [Route.found?, (route_within ran).1.look_eq]
  by_cases short : Path.isShort r.last
  · rw [if_pos short]
    simp only [short, true_and]
    cases there : t.top.at? (Path.step r.spot.names r.last) with
    | none => simp [bind, Except.bind]
    | some found =>
      cases found with
      | file content =>
        cases r.slash with
        | true =>
          simp only [bind, Except.bind, if_true, reduceCtorEq, Option.some.injEq, false_iff, not_and]
          rintro rfl ends
          simp [FileEntry.kind] at ends
        | false => simp [bind, Except.bind, pure, Except.pure]
      | directory es =>
        simp only [bind, Except.bind, pure, Except.pure, Except.ok.injEq, Option.some.injEq]
        refine ⟨fun same => ⟨same, fun _ => ?_⟩, And.left⟩
        rw [← same]
        rfl
  · simp [short, bind, Except.bind]

/-- A path leads to the same in well-named trees that have the same at every place. -/
theorem find_of_kinds (found : t.find path = .ok sub) (named : u.top.isWellNamed)
    (working : u.working = t.working) (kinds : ∀ names, u.top.kindAt? names = t.top.kindAt? names)
    : ∃ sub', u.find path = .ok sub' ∧ sub'.isWellNamed
      ∧ ∀ names, sub'.kindAt? names = sub.kindAt? names := by
  obtain ⟨r, ran, _⟩ := exists_of_bind_eq_ok found
  obtain ⟨short, here, ends⟩ := (find_eq_ok_iff ran).mp found
  obtain ⟨r', ran', names, last, slash⟩ :=
    exists_route ran ⟨working, fun names there => (kinds names).trans there⟩
  have same := kinds (Path.step r.spot.names r.last)
  rw [kindAt?, kindAt?, here] at same
  obtain ⟨sub', here', kind⟩ := Option.map_eq_some_iff.mp same
  refine ⟨sub', (find_eq_ok_iff ran').mpr ?_, (isWellNamed_at? named here').1, fun names => ?_⟩
  · rw [names, last, slash, kind]
    exact ⟨short, here', ends⟩
  · have below := kinds (Path.step r.spot.names r.last ++ names)
    simpa only [kindAt?, at?_append, here, here', Option.bind_some] using below

end

section

variable {t : FileTree} {root : String} {es : FileEntries}

/-- A search finds what is sought. For every tree whose root can be found and whose directories can be
read, it gives the paths of exactly those files below the root that the configuration asks for, in
strictly increasing order of their parts. The order in which directories list their entries does not
matter. -/
theorem collect_exact (named : t.top.isWellNamed) (found : t.find root = .ok (.directory es))
    (readable : (FileEntry.directory es).Readable root) (c : Config)
    : ∃ paths, t.collect c root = .ok paths
      ∧ paths.Pairwise (fun a b => Path.compare a b = .lt)
      ∧ (∀ path, path ∈ paths
          ↔ ∃ folders name content, (FileEntry.directory es).at? (folders ++ [name]) = some (.file content)
            ∧ Sought c root folders name ∧ path = pathFrom root (folders ++ [name]))
      ∧ ∀ entries, t.top.Reordered (.directory entries)
          → { t with entries }.collect c root = .ok paths := by
  have filled : root ≠ "" := by
    rintro rfl
    simp [find, route, bind, Except.bind] at found
  obtain ⟨sub, found', inner, _⟩ := find_of_kinds found named rfl fun _ => rfl
  obtain rfl := Except.ok.inj (found.symm.trans found')
  obtain ⟨paths, ran, sorted, members⟩ := collect_walk found inner filled readable c
  refine ⟨paths, ran, sorted, fun path => ?_, fun entries related => ?_⟩
  · rw [members]
    constructor
    · rintro ⟨names, listed, wanted, rfl⟩
      obtain ⟨content, there, passed⟩ := (mem_visibleFiles_iff inner).mp listed
      rcases List.eq_nil_or_concat' names with rfl | ⟨folders, name, rfl⟩
      · simp at there
      · rw [List.dropLast_concat] at passed
        have proper := (isWellNamed_at? inner there).2
        exact ⟨folders, name, content, there, (sought_iff filled proper).mpr ⟨wanted, passed⟩, rfl⟩
    · rintro ⟨folders, name, content, there, sought, rfl⟩
      have proper := (isWellNamed_at? inner there).2
      obtain ⟨wanted, passed⟩ := (sought_iff filled proper).mp sought
      refine ⟨_, (mem_visibleFiles_iff inner).mpr ⟨content, there, ?_⟩, wanted, rfl⟩
      rwa [List.dropLast_concat]
  · obtain ⟨named', same⟩ := related.kindAt?_eq named
    obtain ⟨sub, found', inner', kinds⟩ :=
      find_of_kinds (u := { t with entries }) found named' rfl same
    have readable' : sub.Readable root := fun names here => readable names (kinds names ▸ here)
    obtain ⟨paths', ran', sorted', members'⟩ := collect_walk found' inner' filled readable' c
    have visible (names : List String)
        : names ∈ sub.visibleFiles ↔ names ∈ (FileEntry.directory es).visibleFiles := by
      rw [mem_visibleFiles_iff inner', mem_visibleFiles_iff inner]
      simp only [← kindAt?_eq_file, kinds]
    rw [ran', Path.eq_of_sorted sorted' sorted]
    intro path
    rw [members', members]
    simp only [visible]

def sampleSources : FileEntries :=
  let code : FileEntry := .file .empty
  [("lib", .directory [("B.inc", code), ("A.PHP", code)]), ("vendor", .directory [("C.php", code)]),
    (".git", .directory [("D.php", code)]), ("generated", .directory [("E.php", code)])]

/-- The file with another spelling of the extension is found, in whatever order it is met. -/
theorem collect_exact_sampleSources
    : let t : FileTree := { entries := [("app", .directory sampleSources)] }
      let c : Config := { excludedPaths := ["generated/**"] }
      t.top.isWellNamed ∧ t.find "/app" = .ok (.directory sampleSources)
        ∧ (FileEntry.directory sampleSources).Readable "/app"
        ∧ ∃ paths, t.collect c "/app" = .ok paths ∧ "/app/lib/A.PHP" ∈ paths
          ∧ { t with entries := [("app", .directory sampleSources.reverse)] }.collect c "/app"
            = .ok paths := by
  intro t c
  have named : t.top.isWellNamed := by decide +kernel
  have found : t.find "/app" = .ok (.directory sampleSources) := by
    have segments : Path.segmentsFrom t.working "/app" = ["app"] := by decide +kernel
    simp only [find, route, segments]
    rfl
  have readable : (FileEntry.directory sampleSources).Readable "/app" :=
    (readable_iff (by decide +kernel)).mpr (by decide +kernel)
  obtain ⟨paths, ran, _, members, order⟩ := collect_exact named found readable c
  refine ⟨named, found, readable, paths, ran, ?_, order _ ?_⟩
  · refine (members _).mpr ⟨["lib"], "A.PHP", .empty, rfl, ?_, by decide +kernel⟩
    exact (sought_iff (by decide) (by decide +kernel)).mpr ⟨by decide +kernel, by decide +kernel⟩
  · have reversed : (FileEntry.directory sampleSources).Reordered (.directory sampleSources.reverse) :=
      .directory rfl (List.forall₂_same.mpr fun sub _ => .refl sub) (List.reverse_perm _).symm
    exact @Reordered.directory _ [("app", .directory sampleSources.reverse)] _ rfl
      (.cons reversed .nil) (.refl _)

end

end FileTree

end DesignMetrics
