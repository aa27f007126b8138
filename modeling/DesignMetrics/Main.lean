import DesignMetrics.Command.Run
import DesignMetrics.Lowering.File

/-!
The program. Its words are the command; the paths of the files that it may look at come in on
standard input, one a line. The syntax tree of a PHP file stands beside it as JSON, in a file whose
name has `.cst.json` behind it, as a grammar has written it. The files that the command has changed
are written afterwards.
-/

namespace DesignMetrics.Program

partial def inputLines (input : IO.FS.Stream) : IO (List String) := do
  let line ← input.getLine
  if line.isEmpty then return []
  else return Text.trim line :: (← inputLines input)

def content? (path : String) : IO (Option ByteArray) := do
  try return some (← IO.FS.readBinFile path)
  catch _ => return none

/-- The working directory of this process, without its files. -/
def start : IO FileTree := do
  let path := (← IO.currentDir).toString
  return (FileTree.makeDirectories ⟨[], Path.segments path⟩ path).1

def load (files : FileTree) : List String → IO FileTree
  | [] => return files
  | path :: rest => do
    match ← content? path with
    | none => load files rest
    | some content =>
      load ((files.writeWithDirectories path content).toOption.getD files) rest

def treePath (path : String) : String := path ++ ".cst.json"

def parser (files : FileTree) : Parser := fun source => do
  let content ← (files.read (treePath source.path)).toOption
  let tree ← Cst.ofJson? (← Json.parse? content.toList)
  return .ofCst source.path source.content tree

def save (before after : FileTree) : IO Unit := do
  for path in after.list "/" do
    match after.read path with
    | .error _ => pure ()
    | .ok content =>
      if (before.read path).toOption.map ByteArray.data ≠ some content.data then
        IO.FS.createDirAll ((Path.parent? path).getD "/")
        IO.FS.writeBinFile path content
  for path in before.list "/" do
    if !after.exists? path then IO.FS.removeFile path

def usageText : UsageFault → String
  | .displayVersion => s!"depmetrics {Report.currentVersion}"
  | .displayHelp | .nothingGiven =>
    "Usage: depmetrics [-v] analyze PATH [-c FILE] [-f FORMAT] [-o FILE] [-a NAMES] [--no-cache] "
      ++ "[--cache-dir DIR]\n       depmetrics [-v] init [-o FILE]"
  | fault => s!"error: {fault.name}"

def standardCache : IO (Option String) := do
  return (← IO.getEnv "XDG_CACHE_HOME").map fun root => Path.join root "depmetrics/ast"

def follow (command : Command) : IO Nat := do
  let given ← inputLines (← IO.getStdin)
  let named :=
    match command with
    | .analyze arguments => arguments.config.toList ++ Analyze.configPaths
    | .init arguments => [arguments.output]
  let before ← load (← start) (given ++ given.map treePath ++ named)
  let (result, after) := ((command.run (parser before) (← standardCache)).run).run before
  save before after
  match result with
  | .ok outcome =>
    IO.print outcome.output
    IO.eprint outcome.notice
    return outcome.exitCode
  | .error fault =>
    IO.eprintln s!"Error: {fault.message}"
    return CommandOutcome.failed

end DesignMetrics.Program

open DesignMetrics in
def main (words : List String) : IO UInt32 := do
  match Invocation.ofWords words with
  | .ok invocation => return (← Program.follow invocation.command).toUInt32
  | .error fault =>
    IO.println (Program.usageText fault)
    return fault.exitCode.toUInt32
