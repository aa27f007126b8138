import DesignMetrics.Cache.Choice
import DesignMetrics.Command.Arguments
import DesignMetrics.Command.Basic
import DesignMetrics.Config.Reading

/-!
Following commands. One analyzes files and reports metrics; what is given with it goes before the
configuration. The other writes a configuration to start with.
-/

namespace DesignMetrics

namespace Analyze

def configPaths : List String := ["./depmetrics.yaml", "./.depmetrics.yaml"]

def findConfig? (files : FileTree) : Option String :=
  configPaths.find? fun path => (files.read path).isOk

def readConfig (path : String) (files : FileTree) : Except ConfigFileFault Config := do
  match files.read path with
  | .error cause => throw (.unreadable cause)
  | .ok content =>
    match String.fromUTF8? content with
    | none => throw .notText
    | some text =>
      match Config.ofText? text with
      | none => throw .notConfig
      | some config => return config

def startConfig (arguments : AnalyzeArguments) : Action Config := do
  match arguments.config.or (findConfig? (← getThe FileTree)) with
  | none => return {}
  | some path => Action.ofFiles (.configFile path) (readConfig path)

def override (c : Config) (arguments : AnalyzeArguments) (format : ReportFormat) : Config :=
  { c with
    analyzers := if arguments.analyzers.isEmpty then c.analyzers else arguments.analyzers
    report := { format, output := arguments.output.or c.report.output }
    cache :=
      { c.cache with
        enabled := c.cache.enabled && !arguments.noCache
        location := arguments.cacheDir.or c.cache.location } }

def formatOf (c : Config) (arguments : AnalyzeArguments) : Except CommandFault ReportFormat :=
  match arguments.format with
  | none => .ok c.report.format
  | some name =>
    match ReportFormat.ofName? name with
    | some format => .ok format
    | none => .error (.format name)

def loadConfig (arguments : AnalyzeArguments) : Action (Config × List AnalyzerKind) := do
  let start ← startConfig arguments
  let c := override start arguments (← formatOf start arguments)
  let checked : Except ConfigFault (List AnalyzerKind) := do
    c.check
    c.kinds
  match checked with
  | .ok kinds => return (c, kinds)
  | .error cause => throw (.config cause)

def cacheOf (standard : Option String) (c : CacheConfig) : Except CommandFault CacheChoice :=
  if !c.enabled then .ok .none
  else
    match c.kind with
    | .memory => .ok (.memory {})
    | .directory =>
      match c.location.or standard with
      | some root => .ok (.directory root c.salt)
      | none => .error .noCacheDirectory

def pathsOf (c : Config) (path : String) : Action (List String) := do
  match ← Action.ofFiles (.path path) (·.find path) with
  | .directory _ => Action.ofFiles .collect (·.collect c path)
  | .file _ => return [path]

def readSource (path : String) : Action InputFile := do
  return ⟨path, ← Action.ofFiles (.source path) (·.read path)⟩

def runWith (parser : Parser) (cache : CacheChoice) (kinds : List AnalyzerKind)
    (sources : List InputFile) : Action RunResult := do
  let (result, _, files) := cache.using (← getThe FileTree) (DesignMetrics.run parser kinds sources)
  set files
  match result with
  | .ok result => return result
  | .error fault => throw (.run fault)

def report (c : ReportConfig) (r : Report) : Action CommandOutcome := do
  match c.output with
  | none => return { output := r.text c.format false }
  | some path =>
    Action.change .report (r.save c.format path)
    return {}

def run (parser : Parser) (standardCache : Option String) (arguments : AnalyzeArguments)
    : Action CommandOutcome := do
  let (c, kinds) ← loadConfig arguments
  let paths ← pathsOf c arguments.path
  if paths.isEmpty then return { notice := "Warning: no files to analyze\n" }
  let cache ← cacheOf standardCache c.cache
  let sources ← paths.mapM readSource
  let result ← runWith parser cache kinds sources
  report c.report (Report.ofRun arguments.path result)

end Analyze

namespace Init

def template : List String :=
    ["# depmetrics configuration",
     "#",
     "# Analyzers to run. Available: coupling, node-count, cyclomatic-complexity,",
     "# dependency",
     "analyzers:",
     "  - coupling",
     "  - node-count",
     "  - cyclomatic-complexity",
     "  - dependency",
     "",
     "# File extensions treated as PHP source",
     "extensions:",
     "  - php",
     "  - inc",
     "",
     "# Glob patterns for paths to exclude from analysis",
     "excluded_paths:",
     "  - \"**/vendor/**\"",
     "  - \"**/tests/**\"",
     "",
     "cache:",
     "  enabled: true",
     "  # \"file\" persists across runs, \"memory\" only within one run",
     "  driver: file",
     "  # Defaults to the per-user cache directory when omitted",
     "  # location: .depmetrics-cache",
     "  # Mixed into every cache key; change it to invalidate old entries",
     "  salt: \"\"",
     "",
     "report:",
     "  # pretty or json",
     "  format: pretty",
     "  # Write the report to a file instead of stdout",
     "  # output: metrics.json"]

def templateText : String := String.join (template.map (· ++ "\n"))

def created (path : String) : String :=
  s!"Created {path}\n\nNext steps:\n  1. Edit {path} to choose analyzers and exclusions\n"
    ++ s!"  2. Run: depmetrics analyze src --config {path}\n"

def refused (path : String) : String :=
  s!"Error: file already exists: {path}\nRemove it or use --output to specify a different path\n"

def makeParent (path : String) : Action Unit := do
  match Path.parent? path with
  | none => return
  | some parent =>
    if !parent.isEmpty && Path.parts parent != [.current] then
      let (files, result) := (← getThe FileTree).makeDirectories parent
      set files
      if let .error cause := result then throw (.makeDirectory parent cause)

def run (arguments : InitArguments) : Action CommandOutcome := do
  let path := arguments.output
  if (← getThe FileTree).exists? path then
    return { exitCode := CommandOutcome.failed, notice := refused path }
  makeParent path
  Action.change (.write path) (·.write path templateText.toUTF8)
  return { output := created path }

end Init

def Command.run (parser : Parser) (standardCache : Option String) : Command → Action CommandOutcome
  | analyze arguments => Analyze.run parser standardCache arguments
  | init arguments => Init.run arguments

end DesignMetrics
