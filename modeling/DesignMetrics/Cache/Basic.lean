import Std.Data.TreeMap
import DesignMetrics.Json.Decode
import DesignMetrics.Json.Printer
import DesignMetrics.Json.Reader

/-!
Caches. A cache keeps payloads under a key and a tag.
-/

namespace DesignMetrics

/-- What a payload is found by. -/
structure CacheKey where
  key : String
  tag : String
  deriving DecidableEq, Repr

namespace CacheKey

instance : Ord CacheKey := ⟨compareLex (compareOn key) (compareOn tag)⟩

instance : Std.TransOrd CacheKey :=
  inferInstanceAs (Std.TransCmp (compareLex (compareOn key) (compareOn tag)))

instance : Std.LawfulEqOrd CacheKey where
  compare_self {a} := Std.ReflCmp.compare_self
  eq_of_compare {a b} h := by
    have both := compareLex_eq_eq.mp h
    have sameKey := Std.LawfulEqCmp.eq_of_compare (show compare a.key b.key = .eq from both.1)
    have sameTag := Std.LawfulEqCmp.eq_of_compare (show compare a.tag b.tag = .eq from both.2)
    cases a; cases b
    simp_all

end CacheKey

/-- Why a payload could not be stored. -/
structure CacheFault where
  path : String
  cause : String
  deriving DecidableEq, Repr

def CacheFault.message (f : CacheFault) : String := s!"cache I/O error at {f.path}: {f.cause}"

/-- Caches in a state of type `κ`. -/
class CacheStore (κ : Type) where
  restore : CacheKey → StateM κ (Option ByteArray)
  store : CacheKey → ByteArray → StateM κ (Except CacheFault Unit)
  remove : CacheKey → StateM κ Unit

namespace Cache

variable {κ : Type} [CacheStore κ]

/-- A payload that is not there and one that cannot be read are both misses. -/
def restoreAs {α : Type} (read : Json.Reads α) (k : CacheKey) : StateM κ (Option α) := do
  match ← CacheStore.restore k with
  | none => return none
  | some payload =>
    match (Json.parseStored? payload).bind read with
    | some a => return some a
    | none =>
      CacheStore.remove k
      return none

/-- Storing may fail, and nothing depends on it. -/
def storeJson (k : CacheKey) (value : Json) : StateM κ (Except CacheFault Unit) :=
  CacheStore.store k value.compact.toUTF8

end Cache

/-- The cache that never has anything. -/
structure NoCache where
  deriving DecidableEq, Repr

instance : CacheStore NoCache where
  restore _ := pure none
  store _ _ := pure (.ok ())
  remove _ := pure ()

end DesignMetrics
