import DesignMetrics.Files.Access
import DesignMetrics.Proofs.Files.Places

/-! Operations on paths, by what they do to places.
A path that can be followed leads to a place, also in every tree that has the same directories and more.
Operations change one place each.
-/

namespace DesignMetrics

theorem exists_of_bind_eq_ok {ε α β : Type} {x : Except ε α} {f : α → Except ε β} {b : β}
    (h : x >>= f = .ok b) : ∃ a, x = .ok a ∧ f a = .ok b := by
  cases x with
  | error e => cases h
  | ok a => exact ⟨a, rfl, h⟩

namespace Path

variable {name : String}

theorem isDots_eq_false : isDots name = false ↔ name ≠ "." ∧ name ≠ ".." := by
  simp [isDots]

/-- Whether a segment is not too long. -/
def isShort (segment : String) : Bool := isDots segment || !isNameTooLong segment

def step (names : List String) (segment : String) : List String :=
  if segment = "." then names else if segment = ".." then names.dropLast else names ++ [segment]

theorem step_name {names : List String} (proper : isDots name = false)
    : step names name = names ++ [name] := by
  simp [step, isDots_eq_false.mp proper]

end Path

-- Directories on the way

namespace Spot

/-- Whether a directory on the way through a tree has been reached from its root. -/
inductive Within (t : FileTree) : Spot → Prop
  | top : Within t ⟨t.top, []⟩
  | inner {s : Spot} {name : String} {es : FileEntries} (outer : Within t s)
      (found : s.here.child? name = some (.directory es))
    : Within t ⟨.directory es, (name, s.here) :: s.above⟩

variable {t : FileTree} {s s' : Spot}

theorem names_cons (sub here : FileEntry) (name : String) (above : List (String × FileEntry))
    : (Spot.mk sub ((name, here) :: above)).names = (Spot.mk here above).names ++ [name] := by
  simp [names]

variable (h : Within t s)

include h

theorem Within.at?_names : t.top.at? s.names = some s.here := by
  induction h with
  | top => rfl
  | inner _ found ih =>
    rw [names_cons, FileEntry.at?_concat, ih]
    exact found

theorem Within.kindAt?_names : t.top.kindAt? s.names = some .directory := by
  have there := h.at?_names
  cases h with
  | top => rfl
  | inner => exact FileEntry.kindAt?_eq_directory.mpr ⟨_, there⟩

theorem Within.leave : Within t s.leave ∧ s.leave.names = s.names.dropLast := by
  cases h with
  | top => exact ⟨.top, rfl⟩
  | inner outer found =>
    refine ⟨outer, ?_⟩
    rw [names_cons, List.dropLast_concat]
    rfl

/-- What a segment means is what stands where it leads to, unless its name is too long. -/
theorem Within.look_eq (segment : String)
    : s.look segment
      = if Path.isShort segment then .ok (t.top.at? (Path.step s.names segment))
        else .error .nameTooLong := by
  unfold look Path.step Path.isShort Path.isDots
  by_cases dot : segment = "."
  · simp [dot, h.at?_names]
  · by_cases dots : segment = ".."
    · simp [dots, h.leave.2 ▸ h.leave.1.at?_names]
    · by_cases long : Path.isNameTooLong segment
      · simp [dot, dots, long]
      · simp [dot, dots, long, FileEntry.at?_concat, h.at?_names]

/-- A segment that can be followed leads to a directory. -/
theorem Within.enter {segment : String} (ran : s.enter segment = .ok s')
    : Within t s' ∧ s'.names = Path.step s.names segment := by
  unfold Spot.enter at ran
  obtain ⟨sub, found, ran⟩ := exists_of_bind_eq_ok ran
  cases sub with
  | none => simp at ran
  | some sub =>
    cases sub with
    | file content => simp at ran
    | directory es =>
      have ran : (if segment = "." then s else if segment = ".." then s.leave
          else ⟨.directory es, (segment, s.here) :: s.above⟩) = s' := Except.ok.inj ran
      unfold look at found
      unfold Path.step
      by_cases dot : segment = "."
      · simp only [dot, if_true] at ran ⊢
        subst ran
        exact ⟨h, rfl⟩
      · by_cases dots : segment = ".."
        · subst dots
          simp only [dot, if_true, if_false] at ran ⊢
          subst ran
          exact h.leave
        · simp only [dot, dots, if_false] at found ran ⊢
          subst ran
          split at found
          · simp at found
          · exact ⟨.inner h (Except.ok.inj found), names_cons ..⟩

/-- A segment can be followed if it leads to a directory. -/
theorem Within.exists_enter {segment : String} (short : Path.isShort segment)
    (kind : t.top.kindAt? (Path.step s.names segment) = some .directory)
    : ∃ s', s.enter segment = .ok s' := by
  obtain ⟨es, there⟩ := FileEntry.kindAt?_eq_directory.mp kind
  have found : s.look segment = .ok (some (.directory es)) := by
    rw [h.look_eq, if_pos short, there]
  exact ⟨_, by rw [Spot.enter, found]; rfl⟩

theorem Within.enterAll {segments : List String} (ran : segments.foldlM Spot.enter s = .ok s')
    : Within t s' ∧ s'.names = segments.foldl Path.step s.names := by
  induction segments generalizing s with
  | nil =>
    obtain rfl := Except.ok.inj ran
    exact ⟨h, rfl⟩
  | cons segment segments ih =>
    rw [List.foldlM_cons] at ran
    obtain ⟨next, first, ran⟩ := exists_of_bind_eq_ok ran
    obtain ⟨inside, names⟩ := h.enter first
    obtain ⟨last, names'⟩ := ih inside ran
    exact ⟨last, by rw [names', names, List.foldl_cons]⟩

end Spot

/-- Whether a tree has the working directory of another one, and all of its directories. -/
structure FileTree.KeepsDirectories (t t' : FileTree) : Prop where
  working : t'.working = t.working
  directories : ∀ names, t.top.kindAt? names = some .directory → t'.top.kindAt? names = some .directory

theorem FileTree.KeepsDirectories.trans {t t' t'' : FileTree} (first : t.KeepsDirectories t')
    (second : t'.KeepsDirectories t'') : t.KeepsDirectories t'' where
  working := second.working.trans first.working
  directories names here := second.directories names (first.directories names here)

/-- Segments that can be followed in one tree can be followed in one with more directories. -/
theorem Spot.Within.exists_enterAll {t t' : FileTree} {s s' u : Spot} (kept : t.KeepsDirectories t')
    (h : Within t s) (h' : Within t' u) (same : u.names = s.names) {segments : List String}
    (ran : segments.foldlM Spot.enter s = .ok s') : ∃ u', segments.foldlM Spot.enter u = .ok u' := by
  induction segments generalizing s u with
  | nil => exact ⟨u, rfl⟩
  | cons segment segments ih =>
    rw [List.foldlM_cons] at ran
    obtain ⟨next, first, ran⟩ := exists_of_bind_eq_ok ran
    obtain ⟨inside, names⟩ := h.enter first
    have short : Path.isShort segment := by
      by_contra long
      simp [Spot.enter, h.look_eq, long, bind, Except.bind] at first
    have there : t'.top.kindAt? (Path.step u.names segment) = some .directory := by
      rw [same, ← names]
      exact kept.directories _ inside.kindAt?_names
    obtain ⟨other, first'⟩ := h'.exists_enter short there
    obtain ⟨inside', names'⟩ := h'.enter first'
    obtain ⟨last, ran'⟩ := ih inside inside' (by rw [names', names, same]) ran
    refine ⟨last, ?_⟩
    rw [List.foldlM_cons, first']
    exact ran'

-- Routes

namespace Path

/-- Whether a path can be followed at all. -/
def IsUsable (path : String) : Prop := '\x00' ∉ path.toList ∧ path ≠ "" ∧ ¬ isTooLong path

/-- Whether a path leads to a name inside a folder, given by the names that lead to it. -/
structure LeadsTo (working : List String) (path : String) (folder : List String) (name : String)
    : Prop where
  segments : ∃ init, segmentsFrom working path = init ++ [name] ∧ init.foldl step [] = folder
  proper : isDots name = false
  plain : path.endsWith "/" = false

end Path

namespace FileTree

variable {t t' t'' : FileTree} {path : String} {folder : List String} {name : String} {r : Route}

/-- A route follows the segments of a path, except for the last one. -/
theorem route_eq_ok_iff
    : t.route path = .ok r
      ↔ Path.IsUsable path
        ∧ (Path.segmentsFrom t.working path).dropLast.foldlM Spot.enter ⟨t.top, []⟩ = .ok r.spot
        ∧ r.last = (Path.segmentsFrom t.working path).getLast?.getD "."
        ∧ r.slash = path.endsWith "/" := by
  obtain ⟨spot, last, slash⟩ := r
  unfold route Path.IsUsable
  by_cases nul : '\x00' ∈ path.toList
  · simp [nul]
  · by_cases empty : path = ""
    · simp [empty]
    · by_cases long : Path.isTooLong path
      · simp [nul, empty, long]
      · cases ran : (Path.segmentsFrom t.working path).dropLast.foldlM Spot.enter ⟨t.top, []⟩ <;>
          simp [nul, empty, long, ran, bind, Except.bind, pure, Except.pure, eq_comm (a := last),
            eq_comm (a := slash)]

theorem route_within (ran : t.route path = .ok r)
    : Spot.Within t r.spot
      ∧ r.spot.names = (Path.segmentsFrom t.working path).dropLast.foldl Path.step [] :=
  Spot.Within.top.enterAll (route_eq_ok_iff.mp ran).2.1

/-- A path that can be followed leads to the same place in every tree with more directories. -/
theorem exists_route (ran : t.route path = .ok r) (kept : t.KeepsDirectories t')
    : ∃ r', t'.route path = .ok r' ∧ r'.spot.names = r.spot.names ∧ r'.last = r.last
      ∧ r'.slash = r.slash := by
  obtain ⟨usable, spot, last, slash⟩ := route_eq_ok_iff.mp ran
  obtain ⟨other, spot'⟩ := Spot.Within.top.exists_enterAll kept .top rfl spot
  have names := (Spot.Within.top.enterAll spot').2.trans (Spot.Within.top.enterAll spot).2.symm
  rw [← kept.working] at spot' last
  exact ⟨⟨other, r.last, r.slash⟩, route_eq_ok_iff.mpr ⟨usable, spot', last, slash⟩, names, rfl, rfl⟩

def Opens (t : FileTree) (path : String) : Prop :=
  ∃ r found, t.route path = .ok r ∧ r.found? = .ok found

/-- Whether a route leads to a name inside a folder. -/
structure Reaches (t : FileTree) (r : Route) (folder : List String) (name : String) : Prop where
  names : r.spot.names = folder
  last : r.last = name
  dots : r.isDots = false
  slash : r.slash = false
  here : t.top.kindAt? folder = some .directory
  found : r.found? = if Path.isNameTooLong name then .error .nameTooLong
    else .ok (t.top.at? (folder ++ [name]))

section

variable (h : Path.LeadsTo t.working path folder name)

include h

theorem reaches_of_leadsTo (ran : t.route path = .ok r) : t.Reaches r folder name := by
  obtain ⟨init, segments, rfl⟩ := h.segments
  obtain ⟨_, _, last, slash⟩ := route_eq_ok_iff.mp ran
  obtain ⟨inside, names⟩ := route_within ran
  rw [segments, List.getLast?_concat, Option.getD_some] at last
  rw [segments, List.dropLast_concat] at names
  refine ⟨names, last, ?_, slash.trans h.plain, names ▸ inside.kindAt?_names, ?_⟩
  · rw [Route.isDots, last, h.proper]
  · rw [Route.found?, inside.look_eq, Path.isShort, last, h.proper, names, Path.step_name h.proper]
    cases Path.isNameTooLong name <;> rfl

/-- A path can be opened in every tree with more directories. -/
theorem Opens.mono (opens : t.Opens path) (kept : t.KeepsDirectories t') : t'.Opens path := by
  obtain ⟨r, found, ran, looked⟩ := opens
  have short : ¬ Path.isNameTooLong name := by
    intro long
    simp [(reaches_of_leadsTo h ran).found, long] at looked
  obtain ⟨r', ran', _⟩ := exists_route ran kept
  have reached := reaches_of_leadsTo (kept.working ▸ h) ran'
  exact ⟨r', _, ran', reached.found.trans (if_neg short)⟩

-- Files

variable {content : ByteArray}

/-- A file is read exactly if it stands at its place and its path can be opened. -/
theorem read_iff
    : t.read path = .ok content
      ↔ t.Opens path ∧ t.top.kindAt? (folder ++ [name]) = some (.file content) := by
  rw [FileEntry.kindAt?_eq_file, Opens]
  cases ran : t.route path with
  | error fault => simp [read, find, ran, bind, Except.bind]
  | ok r =>
    obtain ⟨_, _, _, slash, _, found⟩ := reaches_of_leadsTo h ran
    simp only [read, find, ran, bind, Except.bind, found]
    by_cases long : Path.isNameTooLong name
    · simp [long, found]
    · cases there : t.top.at? (folder ++ [name]) with
      | none => simp [long]
      | some sub => cases sub <;> simp [long, slash, pure, Except.pure, found]

/-- What it takes to write a file, and what comes of it. -/
theorem write_ok (ran : t.write path content = .ok t')
    : t.top.kindAt? folder = some .directory ∧ t.top.kindAt? (folder ++ [name]) ≠ some .directory
      ∧ t' = t.put folder name (.file content) := by
  obtain ⟨r, route, ran⟩ := exists_of_bind_eq_ok ran
  obtain ⟨names, last, dots, slash, here, found⟩ := reaches_of_leadsTo h route
  simp only [dots, slash, Bool.or_self, Bool.false_eq_true, if_false, names, last] at ran
  obtain ⟨old, looked, ran⟩ := exists_of_bind_eq_ok ran
  rw [found] at looked
  split at ran
  · simp at ran
  · rename_i other
    refine ⟨here, fun kind => ?_, (Except.ok.inj ran).symm⟩
    obtain ⟨es, there⟩ := FileEntry.kindAt?_eq_directory.mp kind
    split at looked
    · simp at looked
    · exact other es ((Except.ok.inj looked).symm.trans there)

/-- What it takes to remove a file, and what comes of it. -/
theorem remove_iff
    : t.remove path = .ok t'
      ↔ ∃ content, t.read path = .ok content ∧ t' = t.erase folder name := by
  simp only [read_iff h, FileEntry.kindAt?_eq_file, Opens]
  cases ran : t.route path with
  | error fault => simp [remove, ran, bind, Except.bind]
  | ok r =>
    obtain ⟨names, last, _, slash, _, found⟩ := reaches_of_leadsTo h ran
    simp only [remove, ran, bind, Except.bind, found, names, last]
    by_cases long : Path.isNameTooLong name
    · simp [long, found]
    · cases there : t.top.at? (folder ++ [name]) with
      | none => simp [long]
      | some sub => cases sub <;> simp [long, slash, pure, Except.pure, found, eq_comm]

/-- What it takes to give a file another name in its folder, and what comes of it. -/
theorem rename_ok {target other : String} (h' : Path.LeadsTo t.working target folder other)
    (there : t.top.kindAt? (folder ++ [name]) = some (.file content))
    (ran : t.rename path target = .ok t')
    : t.Opens target ∧ t.top.kindAt? folder = some .directory
      ∧ t.top.kindAt? (folder ++ [other]) ≠ some .directory
      ∧ t' = (t.erase folder name).put folder other (.file content) := by
  rw [FileEntry.kindAt?_eq_file] at there
  obtain ⟨r, route, ran⟩ := exists_of_bind_eq_ok ran
  obtain ⟨r', route', ran⟩ := exists_of_bind_eq_ok ran
  obtain ⟨names, last, _, _, here, found⟩ := reaches_of_leadsTo h route
  obtain ⟨names', last', _, _, _, found'⟩ := reaches_of_leadsTo h' route'
  simp only [bind, Except.bind, found, there, names, last, names', last'] at ran
  by_cases long : Path.isNameTooLong name
  · simp [long] at ran
  · by_cases long' : Path.isNameTooLong other
    · simp [long, found', long'] at ran
    · have looked : r'.found? = .ok (t.top.at? (folder ++ [other])) := found'.trans (if_neg long')
      simp only [if_neg long, looked] at ran
      refine ⟨⟨r', _, route', looked⟩, here, fun kind => ?_, ?_⟩
      · obtain ⟨es, old⟩ := FileEntry.kindAt?_eq_directory.mp kind
        simp [old] at ran
      · split at ran
        · simp at ran
        · exact (Except.ok.inj ran).symm

end

-- Directories

/-- Whether a tree has the files of another one, and its directories. -/
structure Extends (t t' : FileTree) : Prop extends KeepsDirectories t t' where
  files : ∀ names content, t'.top.kindAt? names = some (.file content)
    ↔ t.top.kindAt? names = some (.file content)

theorem Extends.refl (t : FileTree) : Extends t t := ⟨⟨rfl, fun _ here => here⟩, fun _ _ => Iff.rfl⟩

theorem Extends.trans (first : Extends t t') (second : Extends t' t'') : Extends t t'' :=
  ⟨first.1.trans second.1, fun names content =>
    (second.files names content).trans (first.files names content)⟩

/-- A directory where nothing was changes no file. -/
theorem extends_put (here : t.top.kindAt? folder = some .directory)
    (free : t.top.kindAt? (folder ++ [name]) = none)
    : Extends t (t.put folder name (.directory [])) := by
  have kinds (names : List String) : (t.put folder name (.directory [])).top.kindAt? names
      = if names = folder ++ [name] then some .directory else t.top.kindAt? names := by
    rw [kindAt?_put here]
    exact FileEntry.replaced_eq (by simp [free]) (fun _ _ => rfl) names
  refine ⟨⟨rfl, fun names there => ?_⟩, fun names content => ?_⟩
  · rw [kinds]
    split
    · rfl
    · exact there
  · rw [kinds]
    split
    · rename_i same
      simp [same, free]
    · rfl

theorem extends_makeDirectory (ran : t.makeDirectory path = .ok t') : Extends t t' := by
  obtain ⟨r, route, ran⟩ := exists_of_bind_eq_ok ran
  obtain ⟨sub, found, ran⟩ := exists_of_bind_eq_ok ran
  cases sub with
  | some sub => simp at ran
  | none =>
    obtain rfl : t.put r.spot.names r.last (.directory []) = t' := Except.ok.inj ran
    have dots : Path.isDots r.last = false := by
      rw [Bool.eq_false_iff]
      intro dots
      have dots : r.last = "." ∨ r.last = ".." := by simpa [Path.isDots] using dots
      rcases dots with dot | dot <;> simp [Route.found?, Spot.look, dot] at found
    have inside := (route_within route).1
    rw [Route.found?, inside.look_eq] at found
    split at found
    · refine extends_put inside.kindAt?_names ?_
      rw [FileEntry.kindAt?, ← Path.step_name dots, Except.ok.inj found]
      rfl
    · simp at found

theorem extends_makeDirectoryUnlessThere (ran : t.makeDirectoryUnlessThere path = .ok t')
    : Extends t t' := by
  unfold makeDirectoryUnlessThere at ran
  split at ran
  · rename_i made
    obtain rfl := Except.ok.inj ran
    exact extends_makeDirectory made
  · split at ran
    · obtain rfl := Except.ok.inj ran
      exact .refl t
    · simp at ran

/-- Making directories changes no file, even if it fails on the way. -/
theorem extends_makeDirectoriesTo (n : Nat) (path : String) (t : FileTree)
    : Extends t (makeDirectoriesTo n path t).1 := by
  induction n generalizing path with
  | zero => exact .refl t
  | succ n ih =>
    unfold makeDirectoriesTo
    split
    · exact .refl t
    · split
      · rename_i made
        exact extends_makeDirectoryUnlessThere made
      · rename_i parent _ _
        have outer := ih parent
        split
        · rename_i made outcome
          rw [outcome] at outer
          split
          · rename_i last
            exact outer.trans (extends_makeDirectoryUnlessThere last)
          · exact outer
        · exact outer
      · exact .refl t

theorem extends_makeDirectories (t : FileTree) (path : String) : Extends t (t.makeDirectories path).1 :=
  extends_makeDirectoriesTo _ path t

-- Changes of one file

/-- Whether a tree has the directories of another one, and its files except for one place. -/
structure Rewrites (t t' : FileTree) (place : List String) (content : Option ByteArray) : Prop
    extends KeepsDirectories t t' where
  files : ∀ names old, t'.top.kindAt? names = some (.file old)
    ↔ if names = place then content = some old else t.top.kindAt? names = some (.file old)

/-- A tree that is the same except for a place without a directory has the same directories. -/
theorem Rewrites.of_kinds {place : List String} (other : t.top.kindAt? place ≠ some .directory)
    (content : Option ByteArray) (working : t'.working = t.working)
    (kinds : ∀ names, t'.top.kindAt? names
      = if names = place then content.map .file else t.top.kindAt? names)
    : t.Rewrites t' place content := by
  refine ⟨⟨working, fun names here => ?_⟩, fun names old => ?_⟩
  · rw [kinds, if_neg]
    · exact here
    · rintro rfl
      exact other here
  · rw [kinds]
    split
    · cases content <;> simp
    · rfl

section

variable (here : t.top.kindAt? folder = some .directory)
  (other : t.top.kindAt? (folder ++ [name]) ≠ some .directory)

include here other

theorem rewrites_put (content : ByteArray)
    : t.Rewrites (t.put folder name (.file content)) (folder ++ [name]) (some content) :=
  .of_kinds other (some content) rfl fun names =>
    (kindAt?_put here _ names).trans (FileEntry.replaced_eq other (fun _ _ => rfl) names)

theorem rewrites_erase : t.Rewrites (t.erase folder name) (folder ++ [name]) none :=
  .of_kinds other none rfl (kindAt?_erase here other)

end

theorem Extends.rewrites {place : List String} {content : Option ByteArray} (outer : Extends t t')
    (inner : t'.Rewrites t'' place content) : t.Rewrites t'' place content :=
  ⟨outer.1.trans inner.1, fun names old => by rw [inner.files, outer.files]⟩

/-- Writing next to a place and renaming then changes nothing but this place. -/
theorem rewrites_rename (h : Path.LeadsTo t.working path folder name) {target other : String}
    (h' : Path.LeadsTo t.working target folder other) (apart : name ≠ other)
    (free : ∀ old, t.top.kindAt? (folder ++ [name]) ≠ some (.file old))
    (first : t.write path content = .ok t') (second : t'.rename path target = .ok t'')
    : t.Rewrites t'' (folder ++ [other]) (some content) ∧ t''.Opens target := by
  obtain ⟨here, noFolder, rfl⟩ := write_ok h first
  have written := rewrites_put here noFolder content
  have there := (written.files (folder ++ [name]) content).mpr (by simp)
  obtain ⟨opens, here', noFolder', rfl⟩ := rename_ok (t := t.put folder name (.file content)) h h' there
    second
  have isFile : (t.put folder name (.file content)).top.kindAt? (folder ++ [name])
      ≠ some .directory := by
    simp [there]
  have erased := rewrites_erase here' isFile
  have unchanged := kindAt?_erase here' isFile (folder ++ [other])
  rw [if_neg (by simp [apart.symm])] at unchanged
  have renamed := rewrites_put (erased.directories _ here') (unchanged ▸ noFolder') content
  have kept := erased.1.trans renamed.1
  refine ⟨⟨written.1.trans kept, fun names old => ?_⟩, ?_⟩
  · rw [renamed.files, erased.files, written.files]
    by_cases same : names = folder ++ [name]
    · simp [same, apart, free]
    · simp only [if_neg same]
  · exact opens.mono (t := t.put folder name (.file content)) h' kept

/-- A file that is removed is the only thing that changes. -/
theorem rewrites_remove (h : Path.LeadsTo t.working path folder name) (ran : t.remove path = .ok t')
    : t.Rewrites t' (folder ++ [name]) none := by
  obtain ⟨content, file, rfl⟩ := (remove_iff h).mp ran
  have there := ((read_iff h).mp file).2
  have here : t.top.kindAt? folder = some .directory := by
    by_contra other
    simp [FileEntry.kindAt?_below other] at there
  exact rewrites_erase here (by simp [there])

end FileTree

end DesignMetrics
