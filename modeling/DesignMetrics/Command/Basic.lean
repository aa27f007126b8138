import DesignMetrics.Files.Collect

/-!
What commands come to: a code, texts to show, and the files afterwards. A command that fails leaves
the files as they were when it did.
-/

namespace DesignMetrics

/-- Why a file is no configuration. -/
inductive ConfigFileFault where
  | unreadable (cause : FileFault)
  | notText
  | notConfig
  deriving DecidableEq, Repr

def ConfigFileFault.message : ConfigFileFault → String
  | unreadable cause => cause.message
  | notText => "stream did not contain valid UTF-8"
  | notConfig => "not a configuration in YAML"

/-- Why a command fails. -/
inductive CommandFault where
  | configFile (path : String) (cause : ConfigFileFault)
  | format (name : String)
  | config (cause : ConfigFault)
  | path (path : String) (cause : FileFault)
  | collect (cause : CollectFault)
  | noCacheDirectory
  | source (path : String) (cause : FileFault)
  | run (cause : TraversalFault NodeCountFault)
  | report (cause : ReportFault)
  | makeDirectory (path : String) (cause : FileFault)
  | write (path : String) (cause : FileFault)

def CommandFault.message : CommandFault → String
  | configFile file cause => s!"failed to parse configuration {file}: {cause.message}"
  | format name => ReportFormat.unknown name
  | config cause => s!"invalid configuration: {cause.message}"
  | path file cause => s!"cannot access path {file}: {cause.message}"
  | collect fault => fault.explained
  | noCacheDirectory => "no cache directory available; set cache.location"
  | source file cause => s!"failed to read {file}: {cause.message}"
  | run fault => fault.message NodeCountFault.message
  | report fault =>
    match fault with
    | .noOutput => fault.message
    | .cannotWrite _ cause => s!"{fault.message}: {cause.message}"
  | makeDirectory file cause => s!"failed to create directory {file}: {cause.message}"
  | write file cause => s!"failed to write {file}: {cause.message}"

/-- What a command comes to if it does not fail. -/
structure CommandOutcome where
  exitCode : Nat := 0
  output : String := ""
  notice : String := ""
  deriving DecidableEq, Repr

def CommandOutcome.failed : Nat := 2

abbrev Action (α : Type) := ExceptT CommandFault (StateM FileTree) α

namespace Action

def ofFiles {ε α : Type} (fault : ε → CommandFault) (get : FileTree → Except ε α) : Action α := do
  match get (← getThe FileTree) with
  | .ok a => return a
  | .error e => throw (fault e)

def change {ε : Type} (fault : ε → CommandFault) (step : FileTree → Except ε FileTree)
    : Action Unit := do
  set (← ofFiles fault step)

end Action

end DesignMetrics
