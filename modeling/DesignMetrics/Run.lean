import DesignMetrics.Metric.Analyzer
import DesignMetrics.Model.Binding
import DesignMetrics.Model.Decoding
import DesignMetrics.Model.Encoding

/-!
A run: files are parsed or taken from the cache, bound into one registry in the order in which they
are given, and analyzed.
-/

namespace DesignMetrics

/-- A file to analyze. -/
structure InputFile where
  path : String
  content : ByteArray

def InputFile.fingerprint (s : InputFile) : String := s.path ++ "@" ++ Digest.Blake3.hexHash s.content

abbrev Parser := InputFile → Option SourceFile

/-- What an analyzer has to tell after a run. -/
structure AnalyzerResult where
  kind : AnalyzerKind
  project : MetricSet
  nodes : Std.TreeMap NodeId MetricSet
  relations : Std.TreeMap NodeId Relations

/-- What a run comes to. -/
structure RunResult where
  units : List CompilationUnit
  registry : Registry
  results : List AnalyzerResult
  parsed : Nat
  restored : Nat
  failed : Nat

namespace Run

/-- A file on its way to a unit. -/
inductive Prepared where
  | snapshot (snapshot : Snapshot)
  | file (file : SourceFile)
  | failed

/-- Files that have become units. -/
structure Progress where
  registry : Registry := ∅
  units : List CompilationUnit := []
  parsed : Nat := 0
  restored : Nat := 0
  failed : Nat := 0

def unitKey (s : InputFile) : CacheKey := ⟨s.fingerprint, "ast"⟩

def parse (parser : Parser) (s : InputFile) : Prepared :=
  match parser s with
  | some file => .file file
  | none => .failed

variable {κ : Type} [CacheStore κ]

def prepare (parser : Parser) (s : InputFile) : StateM κ Prepared := do
  match ← Cache.restoreAs (Snapshot.ofJson? .ofText) (unitKey s) with
  | some snapshot => return .snapshot snapshot
  | none => return parse parser s

/-- A unit from the cache that declares something which is declared already is parsed again. -/
def recheck (parser : Parser) (r : Registry) (s : InputFile) : Prepared → Prepared
  | .snapshot snapshot => if snapshot.conflicts r then parse parser s else .snapshot snapshot
  | p => p

/-- A unit is kept in the cache under its path and the hash of its content, unless a declaration of
it was shadowed, because then it depends on other files. -/
def keep (s : InputFile) (unit : CompilationUnit) (r : Registry) : StateM κ Unit := do
  if unit.shadowed.isEmpty then
    let _ ← Cache.storeJson (unitKey s) (Snapshot.collect unit r).toJson

def addFile (parser : Parser) (p : Progress) (s : InputFile) (prepared : Prepared)
    : StateM κ Progress := do
  match recheck parser p.registry s prepared with
  | .snapshot snapshot =>
    return { p with
      registry := snapshot.attach p.registry
      units := p.units ++ [snapshot.unit]
      restored := p.restored + 1 }
  | .file file =>
    let (unit, registry) := file.bind s.fingerprint p.registry
    keep s unit registry
    return { p with registry, units := p.units ++ [unit], parsed := p.parsed + 1 }
  | .failed => return { p with failed := p.failed + 1 }

def addFiles (parser : Parser) : Progress → List (InputFile × Prepared) → StateM κ Progress
  | p, [] => return p
  | p, (s, prepared) :: rest => do
    addFiles parser (← addFile parser p s prepared) rest

def buildUnits (parser : Parser) (sources : List InputFile) : StateM κ Progress := do
  let prepared ← sources.mapM (prepare parser)
  addFiles parser {} (sources.zip prepared)

def askedIds (r : Registry) (a : Analyzer κ) : List NodeId :=
  (r.toList.filter Node.isUserDefined).map Node.id ++ a.nodeIds

def resultOf (r : Registry) (a : Analyzer κ) : AnalyzerResult :=
  let ids := askedIds r a
  let metrics := ids.map fun id => (id, a.nodeMetrics id)
  let relations := ids.map fun id => (id, a.relations id)
  { kind := a.kind
    project := a.projectMetrics
    nodes := .ofList (metrics.filter fun m => !m.2.isEmpty)
    relations := .ofList (relations.filter fun m => !m.2.isEmpty) }

end Run

variable {κ : Type} [CacheStore κ]

def run (parser : Parser) (kinds : List AnalyzerKind) (sources : List InputFile)
    : StateM κ (Except (TraversalFault NodeCountFault) RunResult) := do
  let p ← Run.buildUnits parser sources
  let (outcome, cache) := Analyzer.run p.registry p.units kinds (← get)
  set cache
  match outcome.fault with
  | some fault => return .error fault
  | none =>
    return .ok
      { units := p.units, registry := p.registry
        results := outcome.observers.map (Run.resultOf p.registry)
        parsed := p.parsed, restored := p.restored, failed := p.failed }

namespace RunResult

def result? (r : RunResult) (name : String) : Option AnalyzerResult :=
  r.results.find? fun a => a.kind.name == name

def nodeMetrics (r : RunResult) (analyzer : String) (id : NodeId) : MetricSet :=
  ((r.result? analyzer).bind fun a => a.nodes[id]?).getD []

def nodeRelations (r : RunResult) (analyzer : String) (id : NodeId) : Relations :=
  ((r.result? analyzer).bind fun a => a.relations[id]?).getD []

end RunResult

end DesignMetrics
