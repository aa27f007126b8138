import DesignMetrics.Cache.Basic
import DesignMetrics.Digest.Blake3
import DesignMetrics.Files.Access

/-!
A cache in a directory, one file for each payload.
-/

namespace DesignMetrics

structure DirectoryCache where
  files : FileTree
  root : String
  salt : String

namespace DirectoryCache

/-- A payload lies in a file that is named for the hash of its key, with the tag as extension,
inside a directory named for the first two digits of the hash. -/
def entryPath (root salt : String) (k : CacheKey) : String :=
  let hash := Digest.Blake3.hexHash (k.key ++ salt).toUTF8
  Path.join (Path.join root (hash.take 2).toString) (hash ++ "." ++ k.tag)

/-- A payload is written next to its place first and then renamed, so nobody meets half of it. -/
def write (c : DirectoryCache) (k : CacheKey) (payload : ByteArray)
    : FileTree × Except CacheFault Unit :=
  let path := entryPath c.root c.salt k
  let folder := (Path.parent? path).getD ""
  let temporary := Path.withExtension path (k.tag ++ ".tmp")
  match c.files.makeDirectories folder with
  | (files, .error fault) => (files, .error ⟨folder, fault.message⟩)
  | (files, .ok ()) =>
    match files.write temporary payload with
    | .error fault => (files, .error ⟨temporary, fault.message⟩)
    | .ok files =>
      match files.rename temporary path with
      | .error fault => (files, .error ⟨path, fault.message⟩)
      | .ok files => (files, .ok ())

instance : CacheStore DirectoryCache where
  restore k := do
    let c ← get
    return (c.files.read (entryPath c.root c.salt k)).toOption
  store k payload := do
    let (files, result) := (← get).write k payload
    modify fun c => { c with files }
    return result
  remove k := modify fun c =>
    match c.files.remove (entryPath c.root c.salt k) with
    | .ok files => { c with files }
    | .error _ => c

end DirectoryCache

end DesignMetrics
