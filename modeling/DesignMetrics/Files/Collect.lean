import DesignMetrics.Config.Basic

/-!
The files that a configuration asks for, below a directory or at a path.
-/

namespace DesignMetrics

/-- Why files cannot be collected. -/
structure CollectFault where
  path : String
  cause : FileFault
  deriving DecidableEq, Repr

def CollectFault.message (f : CollectFault) : String :=
  s!"IO error for operation on {f.path}: {f.cause.message}"

def CollectFault.explained (f : CollectFault) : String := s!"{f.message}: {f.cause.message}"

namespace FileEntry

/-- Directories that are hidden or hold foreign code are passed over, except for the one where the
search starts. -/
def isPassedOver (name : String) : Bool := name == "vendor" || name.startsWith "."

mutual

def visibleFiles : FileEntry → List (List String)
  | file _ => [[]]
  | directory es => visibleEntries es

def visibleEntries : FileEntries → List (List String)
  | [] => []
  | (name, sub) :: rest =>
    let below :=
      if sub.isDirectory && isPassedOver name then [] else (visibleFiles sub).map (name :: ·)
    below ++ visibleEntries rest

end

mutual

def visibleDirectories : FileEntry → List (List String)
  | file _ => []
  | directory es => [] :: directoriesIn es

def directoriesIn : FileEntries → List (List String)
  | [] => []
  | (name, sub) :: rest =>
    let below := if isPassedOver name then [] else (visibleDirectories sub).map (name :: ·)
    below ++ directoriesIn rest

end

def pathFrom (root : String) (names : List String) : String := names.foldl Path.join root

def isWanted (c : Config) (root : String) (names : List String) : Bool :=
  c.hasExtension (pathFrom root names)
    && !c.excludes ("/".intercalate names) && !c.excludes (pathFrom root names)

end FileEntry

open FileEntry in
def FileTree.collect (t : FileTree) (c : Config) (root : String) : Except CollectFault (List String) :=
  match t.find root with
  | .error cause => .error ⟨root, cause⟩
  | .ok sub =>
    match (sub.visibleDirectories.map (pathFrom root)).find? Path.isTooLong with
    | some path => .error ⟨path, .nameTooLong⟩
    | none =>
      let paths := (sub.visibleFiles.filter (isWanted c root)).map (pathFrom root)
      .ok (paths.mergeSort fun a b => (Path.compare a b).isLE)

end DesignMetrics
