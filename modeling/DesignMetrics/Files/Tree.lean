import DesignMetrics.Files.Path

/-!
Files and directories below a root directory. Places are given by the names that lead there from the
root; there are no links.
-/

namespace DesignMetrics

/-- What can stand in a directory. -/
inductive FileEntry where
  | file (content : ByteArray)
  | directory (entries : List (String × FileEntry))

abbrev FileEntries := List (String × FileEntry)

namespace FileEntry

def isDirectory : FileEntry → Bool
  | directory _ => true
  | file _ => false

def entries : FileEntry → FileEntries
  | directory es => es
  | file _ => []

def child? (name : String) (e : FileEntry) : Option FileEntry :=
  (e.entries.find? fun e => e.1 == name).map Prod.snd

def putEntry (name : String) (new : FileEntry) : FileEntries → FileEntries
  | [] => [(name, new)]
  | e :: rest => if e.1 = name then (name, new) :: rest else e :: putEntry name new rest

def changeAt (change : FileEntries → FileEntries) : List String → FileEntries → FileEntries
  | [], es => change es
  | name :: rest, es =>
    match (directory es).child? name with
    | some (directory inner) => putEntry name (directory (changeAt change rest inner)) es
    | _ => es

mutual

def filePaths (path : String) : FileEntry → List String
  | file _ => [path]
  | directory es => entryPaths path es

def entryPaths (path : String) : FileEntries → List String
  | [] => []
  | (name, sub) :: rest => filePaths (Path.join path name) sub ++ entryPaths path rest

end

end FileEntry

/-- The files that a program sees. Its paths begin at the root directory or, without a slash at the
start, at a working directory below it. -/
structure FileTree where
  entries : FileEntries
  working : List String := []

namespace FileTree

def top (t : FileTree) : FileEntry := .directory t.entries

/-- A working directory and nothing else. -/
def directory (entries : FileEntries) : FileTree :=
  { entries := [("work", .directory entries)], working := ["work"] }

def empty : FileTree := directory []

def put (t : FileTree) (folder : List String) (name : String) (new : FileEntry) : FileTree :=
  { t with entries := FileEntry.changeAt (FileEntry.putEntry name new) folder t.entries }

def erase (t : FileTree) (folder : List String) (name : String) : FileTree :=
  { t with entries := FileEntry.changeAt (List.filter fun e => e.1 != name) folder t.entries }

end FileTree

end DesignMetrics
