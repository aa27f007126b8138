import DesignMetrics.Cache.Basic

/-!
A cache in memory.
-/

namespace DesignMetrics

structure MemoryCache where
  entries : Std.TreeMap CacheKey ByteArray := ∅

namespace MemoryCache

def size (c : MemoryCache) : Nat := c.entries.size

instance : CacheStore MemoryCache where
  restore k := return (← get).entries[k]?
  store k payload := do
    modify fun c => ⟨c.entries.insert k payload⟩
    return .ok ()
  remove k := modify fun c => ⟨c.entries.erase k⟩

end MemoryCache

end DesignMetrics
