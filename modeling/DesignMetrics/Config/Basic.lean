import DesignMetrics.Glob.Match
import DesignMetrics.Glob.Reader
import DesignMetrics.Report.Output

/-!
Configurations: which analyzers run, on which files, with which cache, and what becomes of the
report. Everything has a default.
-/

namespace DesignMetrics

/-- Where a cache keeps its entries. -/
inductive CacheKind where
  | directory
  | memory
  deriving DecidableEq, Repr

namespace CacheKind

def name : CacheKind → String
  | directory => "file"
  | memory => "memory"

def ofName? : String → Option CacheKind
  | "file" => some directory
  | "memory" => some memory
  | _ => none

end CacheKind

structure CacheConfig where
  enabled : Bool := true
  kind : CacheKind := .directory
  location : Option String := none
  salt : String := ""
  deriving DecidableEq, Repr

structure ReportConfig where
  format : ReportFormat := .pretty
  output : Option String := none
  deriving DecidableEq, Repr

def phpExtensions : List String := ["php", "inc", "php5", "phtml"]

structure Config where
  analyzers : List String := AnalyzerKind.all.map AnalyzerKind.name
  excludedPaths : List String := []
  extensions : List String := phpExtensions
  cache : CacheConfig := {}
  report : ReportConfig := {}
  deriving DecidableEq, Repr

/-- Why a configuration cannot be used. -/
inductive ConfigFault where
  | noAnalyzers
  | unknownAnalyzer (name : String)
  | invalidPattern (pattern : String) (cause : GlobFault)
  | noExtensions
  deriving DecidableEq, Repr

def ConfigFault.message : ConfigFault → String
  | noAnalyzers => "no analyzers configured"
  | unknownAnalyzer name => s!"unknown analyzer: {name}"
  | invalidPattern pattern cause =>
    "invalid excluded_paths pattern " ++ Text.quoted pattern ++ ": error parsing glob '" ++ pattern
      ++ "': " ++ cause.message
  | noExtensions => "no file extensions configured"

namespace Config

def kinds (c : Config) : Except ConfigFault (List AnalyzerKind) :=
  c.analyzers.mapM fun name =>
    match AnalyzerKind.ofName? name with
    | some kind => .ok kind
    | none => .error (.unknownAnalyzer name)

def check (c : Config) : Except ConfigFault Unit := do
  if c.analyzers.isEmpty then throw .noAnalyzers
  let _ ← c.kinds
  for pattern in c.excludedPaths do
    match Glob.ofString pattern with
    | .ok _ => pure ()
    | .error cause => throw (.invalidPattern pattern cause)
  if c.extensions.isEmpty then throw .noExtensions

def excludes (c : Config) (path : String) : Bool :=
  c.excludedPaths.any fun pattern =>
    match Glob.ofString pattern with
    | .ok glob => glob.isMatch path
    | .error _ => false

def hasExtension (c : Config) (path : String) : Bool :=
  c.extensions.any (Text.sameFolded ((Path.extension? path).getD ""))

end Config

end DesignMetrics
