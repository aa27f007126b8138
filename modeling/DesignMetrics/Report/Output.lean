import DesignMetrics.Files.Access
import DesignMetrics.Report.Encoding
import DesignMetrics.Report.Pretty
import DesignMetrics.Text.Quoted

/-!
Where and how reports are written.
-/

namespace DesignMetrics

inductive ReportFormat where
  | pretty
  | json
  deriving DecidableEq, Repr

namespace ReportFormat

def name : ReportFormat → String
  | pretty => "pretty"
  | json => "json"

def ofName? : String → Option ReportFormat
  | "pretty" => some pretty
  | "json" => some json
  | _ => none

def unknown (name : String) : String :=
  "invalid format " ++ Text.quoted name ++ ", must be 'pretty' or 'json'"

end ReportFormat

/-- Why a report could not be written. -/
inductive ReportFault where
  | noOutput
  | cannotWrite (path : String) (cause : FileFault)
  deriving DecidableEq, Repr

def ReportFault.message : ReportFault → String
  | noOutput => "report output path is empty"
  | cannotWrite path cause => s!"failed to write report to {path}: {cause.message}"

namespace Report

def text (format : ReportFormat) (colors : Bool) (r : Report) : String :=
  match format with
  | .pretty => r.pretty colors
  | .json => r.json

def save (format : ReportFormat) (path : String) (r : Report) (files : FileTree)
    : Except ReportFault FileTree :=
  if path.isEmpty then .error .noOutput
  else
    match files.write path (r.text format false).toUTF8 with
    | .ok files => .ok files
    | .error fault => .error (.cannotWrite path fault)

end Report

end DesignMetrics
