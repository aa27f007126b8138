import DesignMetrics.Cache.Directory
import DesignMetrics.Cache.Memory

/-!
A choice of cache: none, one in memory, or one in a directory among the files.
-/

namespace DesignMetrics

inductive CacheChoice where
  | none
  | memory (cache : MemoryCache)
  | directory (root salt : String)

def CacheChoice.using {α : Type} (choice : CacheChoice) (files : FileTree)
    (action : {κ : Type} → [CacheStore κ] → StateM κ α) : α × CacheChoice × FileTree :=
  match choice with
  | none =>
    let (a, _) := action.run NoCache.mk
    (a, none, files)
  | memory cache =>
    let (a, cache) := action.run cache
    (a, memory cache, files)
  | directory root salt =>
    let (a, cache) := action.run (DirectoryCache.mk files root salt)
    (a, directory root salt, cache.files)

end DesignMetrics
