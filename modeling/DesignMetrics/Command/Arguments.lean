import DesignMetrics.Command.Usage

/-!
The commands of the program, and what may be given with them.
-/

namespace DesignMetrics

structure AnalyzeArguments where
  path : String
  config : Option String := none
  format : Option String := none
  output : Option String := none
  analyzers : List String := []
  noCache : Bool := false
  cacheDir : Option String := none
  deriving DecidableEq, Repr

structure InitArguments where
  output : String
  deriving DecidableEq, Repr

inductive Command where
  | analyze (arguments : AnalyzeArguments)
  | init (arguments : InitArguments)
  deriving DecidableEq, Repr

/-- A command, and how much the program is to tell about its work. -/
structure Invocation where
  verbose : Nat
  command : Command
  deriving DecidableEq, Repr

namespace Invocation

def verboseForm : OptionForm := ⟨"verbose", 'v', .count⟩

def helpForm : OptionForm := ⟨"help", 'h', .help⟩

def programForm : CommandForm where
  options := [verboseForm, helpForm, ⟨"version", 'V', .version⟩]
  subcommands := ["analyze", "init", "help"]

def analyzeForm : CommandForm where
  options :=
    [verboseForm, helpForm, ⟨"config", 'c', .path⟩, ⟨"format", 'f', .text⟩,
     ⟨"output", 'o', .path⟩, ⟨"analyzers", 'a', .texts⟩, ⟨"no-cache", none, .switch⟩,
     ⟨"cache-dir", none, .path⟩]
  operands := [⟨"path", none, .path⟩]

def initForm : CommandForm where
  options := [verboseForm, helpForm, ⟨"output", 'o', .path⟩]

def help : List String → UsageFault
  | [] => .displayHelp
  | [name] =>
    if programForm.subcommands.contains name then .displayHelp else .invalidSubcommand
  | _ => .invalidSubcommand

def analyze (words : List String) : Except UsageFault (Given × Command) := do
  let (g, _) ← analyzeForm.read words
  match g.value? "path" with
  | none => throw .missingOperand
  | some path =>
    return (g, .analyze
      { path
        config := g.value? "config"
        format := g.value? "format"
        output := g.value? "output"
        analyzers := (g.values? "analyzers").getD []
        noCache := g.has "no-cache"
        cacheDir := g.value? "cache-dir" })

def init (words : List String) : Except UsageFault (Given × Command) := do
  let (g, _) ← initForm.read words
  return (g, .init { output := (g.value? "output").getD "depmetrics.yaml" })

def ofGiven (program command : Given) (c : Command) : Invocation :=
  let inner := command.count "verbose"
  { verbose := if inner = 0 then program.count "verbose" else inner, command := c }

def ofWords (words : List String) : Except UsageFault Invocation := do
  match ← programForm.read words with
  | (g, some ("analyze", rest)) =>
    let (inner, command) ← analyze rest
    return ofGiven g inner command
  | (g, some ("init", rest)) =>
    let (inner, command) ← init rest
    return ofGiven g inner command
  | (_, some (_, rest)) => throw (help rest)
  | (g, none) => if g.isNothing then throw .nothingGiven else throw .missingSubcommand

end Invocation

end DesignMetrics
