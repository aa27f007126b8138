import DesignMetrics.Report.Basic
import DesignMetrics.Report.Value

/-!
Reports for people. Colors are escape sequences for terminals.
-/

namespace DesignMetrics.Report

/-- How a piece of text stands out. -/
inductive Style where
  | title
  | dimmed
  | bold
  | number
  deriving DecidableEq, Repr

namespace Style

def code : Style → String
  | title => "\x1b[1;36m"
  | dimmed => "\x1b[2m"
  | bold => "\x1b[1m"
  | number => "\x1b[33m"

def reset : String := "\x1b[0m"

end Style

def paint (colors : Bool) (style : Style) (text : String) : String :=
  if colors then style.code ++ text.replace Style.reset (Style.reset ++ style.code) ++ Style.reset
  else text

def padded (width : Nat) (text : String) : String :=
  text ++ String.ofList (List.replicate (width - text.length) ' ')

def metricsText (colors : Bool) (m : MetricSet) : String :=
  "  ".intercalate (m.map fun (name, x) => name ++ "=" ++ paint colors .number (value x))

def placeText (colors : Bool) (n : ReportNode) : String :=
  match n.file, n.line with
  | some file, some line => "  " ++ paint colors .dimmed s!"{file}:{line}"
  | _, _ => ""

def detailLine (colors : Bool) (label text : String) : String :=
  "              " ++ paint colors .dimmed (padded 24 label) ++ text ++ "\n"

def nodeLines (colors : Bool) (n : ReportNode) : String :=
  let label := (NodeId.mk n.id).key
  let heading := "    " ++ paint colors .dimmed (padded 10 n.kind) ++ label ++ placeText colors n
    ++ (if n.isExternal then "  " ++ paint colors .dimmed "external" else "") ++ "\n"
  let metrics := n.metrics.map fun (analyzer, m) => detailLine colors analyzer (metricsText colors m)
  let related := (n.relations.flatMap Prod.snd).filter fun (_, names) => !names.isEmpty
  let relations := related.map fun (name, names) => detailLine colors name (", ".intercalate names)
  heading ++ String.join metrics ++ String.join relations

def chapters : List (String × List String) :=
  [("Namespaces", ["namespace"]), ("Types", ["class", "interface"]),
    ("Callables", ["method", "function"])]

def chapterLines (colors : Bool) (nodes : List ReportNode) (chapter : String × List String)
    : String :=
  let listed := nodes.filter fun n => chapter.2.contains n.kind
  if listed.isEmpty then ""
  else
    "  " ++ paint colors .bold chapter.1 ++ s!" ({listed.length}):\n"
      ++ String.join (listed.map (nodeLines colors)) ++ "\n"

def pretty (colors : Bool) (r : Report) : String :=
  let counts := s!"({r.parsed} parsed, {r.restored} cached, {r.failed} failed)"
  let project := r.project.map fun (analyzer, m) =>
    "    " ++ padded 24 analyzer ++ metricsText colors m ++ "\n"
  "\n" ++ paint colors .title "depmetrics" ++ " v" ++ currentVersion ++ "\n\n"
    ++ "  " ++ paint colors .dimmed "Analyzed: " ++ r.path ++ "\n"
    ++ "  " ++ paint colors .dimmed "Files:    " ++ s!"{r.files} files "
    ++ paint colors .dimmed counts ++ "\n\n"
    ++ "  " ++ paint colors .bold "Project:" ++ "\n" ++ String.join project ++ "\n"
    ++ String.join (chapters.map (chapterLines colors r.nodes))

end DesignMetrics.Report
