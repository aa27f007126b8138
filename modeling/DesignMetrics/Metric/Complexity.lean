import DesignMetrics.Cache.Basic
import DesignMetrics.Metric.Basic
import DesignMetrics.Syntax.Fingerprint
import DesignMetrics.Traversal.Event

/-!
The cyclomatic complexity of methods and functions: one more than the number of decision points.
Closures belong to the method or function around them.
-/

namespace DesignMetrics

def Stmt.decisions : Stmt → Nat
  | .ifElse _ _ elseIfs _ => 1 + elseIfs.length
  | .whileLoop .. | .doWhile .. | .forLoop .. | .forEach .. => 1
  | .switch _ cases => cases.countP fun c => c.test.isSome
  | .tryCatch _ catches _ => catches.length
  | _ => 0

def Expr.decisions : Expr → Nat
  | .ternary .. => 1
  | _ => 0

/-- A second number also counts the operators that may leave out their right operand. -/
def Expr.isShortCircuit : Expr → Bool
  | .binary op .. => op.isShortCircuit
  | _ => false

structure ComplexityRecord where
  ccn : Nat
  ccn2 : Nat
  deriving DecidableEq, Repr

namespace ComplexityRecord

def add (a b : ComplexityRecord) : ComplexityRecord := ⟨a.ccn + b.ccn, a.ccn2 + b.ccn2⟩

def toJson (r : ComplexityRecord) : Json :=
  .object [("ccn", Json.ofNat r.ccn), ("ccn2", Json.ofNat r.ccn2)]

def ofJson? : Json.Reads ComplexityRecord := fun j => do
  match ← Json.fields? ["ccn", "ccn2"] j with
  | [ccn, ccn2] => return ⟨← ccn.required Json.nat?, ← ccn2.required Json.nat?⟩
  | _ => none

def metrics (r : ComplexityRecord) : MetricSet := [("ccn", count r.ccn), ("ccn2", count r.ccn2)]

def ofVisit : Visit → ComplexityRecord
  | .stmt s => ⟨s.decisions, s.decisions⟩
  | .expr e => ⟨e.decisions, e.decisions + if e.isShortCircuit then 1 else 0⟩
  | _ => ⟨0, 0⟩

end ComplexityRecord

/-- A method or function that is being walked. -/
structure ComplexityFrame where
  id : NodeId
  key : CacheKey
  record : ComplexityRecord
  restored : Bool

/-- A method or function by what its record is kept under. -/
structure Callable where
  id : NodeId
  fingerprint : String
  cached : Bool

namespace Callable

def ofVisit? : Visit → Option Callable
  | .method m => some ⟨m.id, m.fingerprint, m.cached⟩
  | .function f => some ⟨f.id, f.fingerprint, f.cached⟩
  | _ => none

/-- The numbers of a callable are kept in the cache under its identifier and fingerprint. -/
def cacheKey (c : Callable) : CacheKey := ⟨c.id.text ++ "@" ++ c.fingerprint, "ccn"⟩

end Callable

structure Complexity (κ : Type) where
  cache : κ
  frames : List ComplexityFrame := []
  records : Std.TreeMap NodeId ComplexityRecord := ∅
  total : ComplexityRecord := ⟨0, 0⟩

namespace Complexity

variable {κ : Type} [CacheStore κ]

/-- The numbers of a callable that comes from the cache itself are taken from there. -/
def restored (c : Callable) : StateM κ (Option ComplexityRecord) :=
  if c.cached then Cache.restoreAs ComplexityRecord.ofJson? c.cacheKey else return none

def enterCallable (callable : Callable) (c : Complexity κ) : Complexity κ :=
  let (found, cache) := (restored callable).run c.cache
  let frame : ComplexityFrame :=
    { id := callable.id, key := callable.cacheKey, record := found.getD ⟨1, 1⟩
      restored := found.isSome }
  { c with cache, frames := frame :: c.frames }

def addRecord (more : ComplexityRecord) (c : Complexity κ) : Complexity κ :=
  match c.frames with
  | frame :: rest =>
    if frame.restored then c
    else { c with frames := { frame with record := frame.record.add more } :: rest }
  | [] => c

def leaveCallable (c : Complexity κ) : Complexity κ :=
  match c.frames with
  | frame :: rest =>
    let cache :=
      if frame.restored then c.cache
      else ((Cache.storeJson frame.key frame.record.toJson).run c.cache).2
    { c with
      cache
      frames := rest
      records := c.records.insert frame.id frame.record
      total := c.total.add frame.record }
  | [] => c

def observe (e : Event) (c : Complexity κ) : Complexity κ :=
  match e with
  | .enter v =>
    match Callable.ofVisit? v with
    | some callable => c.enterCallable callable
    | none => c.addRecord (.ofVisit v)
  | .leave v => if (Callable.ofVisit? v).isSome then c.leaveCallable else c

def projectMetrics (c : Complexity κ) : MetricSet := c.total.metrics

def nodeIds (c : Complexity κ) : List NodeId := c.records.keys

def nodeMetrics (c : Complexity κ) (id : NodeId) : MetricSet :=
  ((c.records[id]?).map ComplexityRecord.metrics).getD []

end Complexity

end DesignMetrics
