import Mathlib.Data.List.Infix
import DesignMetrics.Files.Tree

/-! Trees of files, place by place.
A tree is known from what stands at each place, given by the names that lead there. Putting something
in a directory, or taking something away, changes what stands at that place and below it, and nothing
else.
-/

namespace DesignMetrics.FileEntry

/-- What can stand at a place. -/
inductive Kind where
  | file (content : ByteArray)
  | directory

def kind : FileEntry → Kind
  | file content => .file content
  | directory _ => .directory

def at? : FileEntry → List String → Option FileEntry
  | t, [] => some t
  | t, name :: rest => (t.child? name).bind fun sub => sub.at? rest

def kindAt? (t : FileEntry) (names : List String) : Option Kind := (t.at? names).map kind

section

variable {t : FileEntry}

@[simp] theorem at?_nil : t.at? [] = some t := rfl

theorem at?_append (names more : List String)
    : t.at? (names ++ more) = (t.at? names).bind fun sub => sub.at? more := by
  induction names generalizing t with
  | nil => rfl
  | cons name names ih =>
    rw [List.cons_append, at?, at?, Option.bind_assoc]
    exact congrArg _ (funext fun sub => ih)

theorem at?_concat (names : List String) (name : String)
    : t.at? (names ++ [name]) = (t.at? names).bind (child? name) := by
  have one (sub : FileEntry) : sub.at? [name] = sub.child? name := by simp [at?]
  simp only [at?_append, one]

@[simp] theorem kindAt?_nil : t.kindAt? [] = some t.kind := rfl

theorem kindAt?_cons (name : String) (rest : List String)
    : t.kindAt? (name :: rest) = (t.child? name).bind fun sub => sub.kindAt? rest := by
  rw [kindAt?, at?, Option.map_bind]
  rfl

theorem kind_eq_directory : t.kind = .directory ↔ ∃ es, t = .directory es := by
  cases t <;> simp [kind]

variable {names : List String}

theorem kindAt?_eq_directory
    : t.kindAt? names = some .directory ↔ ∃ es, t.at? names = some (.directory es) := by
  simp only [kindAt?, Option.map_eq_some_iff, kind_eq_directory]
  grind

theorem kindAt?_eq_file {content : ByteArray}
    : t.kindAt? names = some (.file content) ↔ t.at? names = some (.file content) := by
  have only (sub : FileEntry) : sub.kind = .file content ↔ sub = .file content := by
    cases sub <;> simp [kind]
  simp [kindAt?, only]

/-- Only directories have something below them. -/
theorem kindAt?_below (other : t.kindAt? names ≠ some .directory) (name : String) (rest : List String)
    : t.kindAt? (names ++ name :: rest) = none := by
  rw [kindAt?, at?_append]
  cases here : t.at? names with
  | none => rfl
  | some sub =>
    cases sub with
    | file content => rfl
    | directory es => exact absurd (kindAt?_eq_directory.mpr ⟨es, here⟩) other

end

def replaced (old : List String → Option Kind) (place : List String)
    (new : List String → Option Kind) (names : List String) : Option Kind :=
  if place <+: names then new (names.drop place.length) else old names

variable {t : FileEntry}

/-- If nothing stood below the place and nothing will, only the place itself changes. -/
theorem replaced_eq {place : List String} (other : t.kindAt? place ≠ some .directory)
    {new : List String → Option Kind} (nothing : ∀ name rest, new (name :: rest) = none)
    (names : List String)
    : replaced t.kindAt? place new names = if names = place then new [] else t.kindAt? names := by
  unfold replaced
  split
  · rename_i below
    obtain ⟨rest, rfl⟩ := below
    cases rest with
    | nil => simp
    | cons name rest => simp [nothing, kindAt?_below other]
  · rename_i outside
    rw [if_neg]
    rintro rfl
    exact outside (List.prefix_refl _)

theorem child?_putEntry (name other : String) (new : FileEntry) (es : FileEntries)
    : (directory (putEntry name new es)).child? other
      = if other = name then some new else (directory es).child? other := by
  simp only [child?, entries]
  induction es with
  | nil =>
    by_cases same : other = name
    · simp [putEntry, same]
    · simp [putEntry, same, Ne.symm same]
  | cons e es ih =>
    rw [putEntry]
    by_cases here : e.1 = name
    · by_cases same : other = name
      · simp [here, same]
      · simp [here, same, Ne.symm same]
    · rw [if_neg here]
      by_cases there : e.1 = other
      · have apart : other ≠ name := fun same => here (there.trans same)
        simp [there, apart]
      · simpa [there] using ih

theorem child?_filter (name other : String) (es : FileEntries)
    : (directory (es.filter fun e => e.1 != name)).child? other
      = if other = name then none else (directory es).child? other := by
  simp only [child?, entries, List.find?_filter]
  by_cases same : other = name
  · subst same
    simp
  · rw [if_neg same]
    congr 2
    funext e
    by_cases here : e.1 = other <;> simp [here, same]

section

variable {es : FileEntries} {name : String} {folder : List String}

theorem kindAt?_putEntry (new : FileEntry) (names : List String)
    : (directory (putEntry name new es)).kindAt? names
      = replaced (directory es).kindAt? [name] new.kindAt? names := by
  cases names with
  | nil => simp [replaced, kind]
  | cons other rest =>
    rw [kindAt?_cons, child?_putEntry, replaced]
    by_cases same : other = name
    · simp [same]
    · simp [same, Ne.symm same, kindAt?_cons]

/-- What changes below an entry changes below the directory that it is in. -/
theorem kindAt?_putEntry_below {sub new : FileEntry} (found : (directory es).child? name = some sub)
    {place : List String} {value : List String → Option Kind}
    (below : ∀ names, new.kindAt? names = replaced sub.kindAt? place value names) (names : List String)
    : (directory (putEntry name new es)).kindAt? names
      = replaced (directory es).kindAt? (name :: place) value names := by
  rw [kindAt?_putEntry]
  cases names with
  | nil => rfl
  | cons other rest =>
    by_cases same : other = name
    · subst same
      simp [replaced, below, kindAt?_cons, found]
    · simp [replaced, Ne.symm same]

theorem kindAt?_filter (names : List String)
    : (directory (es.filter fun e => e.1 != name)).kindAt? names
      = replaced (directory es).kindAt? [name] (fun _ => none) names := by
  cases names with
  | nil => rfl
  | cons other rest =>
    rw [kindAt?_cons, child?_filter]
    by_cases same : other = name
    · simp [replaced, same]
    · simp [replaced, same, Ne.symm same, kindAt?_cons]

/-- What changes at a name inside a directory changes at its place in the tree. -/
theorem kindAt?_changeAt {change : FileEntries → FileEntries} {value : List String → Option Kind}
    (changed : ∀ es names, (directory (change es)).kindAt? names
      = replaced (directory es).kindAt? [name] value names)
    (here : (directory es).kindAt? folder = some .directory) (names : List String)
    : (directory (changeAt change folder es)).kindAt? names
      = replaced (directory es).kindAt? (folder ++ [name]) value names := by
  induction folder generalizing es names with
  | nil => exact changed es names
  | cons first folder ih =>
    rw [kindAt?_cons] at here
    obtain ⟨sub, found, below⟩ := Option.bind_eq_some_iff.mp here
    cases sub with
    | file content => cases folder <;> simp [kindAt?, at?, child?, entries, kind] at below
    | directory inner =>
      rw [changeAt, found]
      exact kindAt?_putEntry_below found (ih below) names

end

end DesignMetrics.FileEntry

namespace DesignMetrics.FileTree

open FileEntry

variable {t : FileTree} {folder : List String} {name : String}

section

variable (here : t.top.kindAt? folder = some .directory)

include here

/-- Putting something in a directory changes what stands at its place and below. -/
theorem kindAt?_put (new : FileEntry) (names : List String)
    : (t.put folder name new).top.kindAt? names
      = replaced t.top.kindAt? (folder ++ [name]) new.kindAt? names :=
  kindAt?_changeAt (fun _ => kindAt?_putEntry new) here names

/-- A file that is erased changes only its place. -/
theorem kindAt?_erase (other : t.top.kindAt? (folder ++ [name]) ≠ some .directory)
    (names : List String)
    : (t.erase folder name).top.kindAt? names
      = if names = folder ++ [name] then none else t.top.kindAt? names := by
  have erased : (t.erase folder name).top.kindAt? names
      = replaced t.top.kindAt? (folder ++ [name]) (fun _ => none) names :=
    kindAt?_changeAt (fun _ => kindAt?_filter) here names
  rw [erased]
  exact replaced_eq other (fun _ _ => rfl) names

end

end DesignMetrics.FileTree
