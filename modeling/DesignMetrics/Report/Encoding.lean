import DesignMetrics.Report.Basic

/-!
Reports written as JSON and read from it.
-/

namespace DesignMetrics

open Json (Reads string? bool? nat? double? list? entries? fields?)

def MetricSet.toJson (m : MetricSet) : Json := .object (m.map fun (name, x) => (name, .decimal x))

def Relations.toJson (r : Relations) : Json :=
  .object (r.map fun (name, names) => (name, Json.ofList .string names))

def ByName.toJson {α : Type} (write : α → Json) (entries : ByName α) : Json :=
  .object (entries.map fun (name, a) => (name, write a))

/-- Whatever is absent of a node is left out: its place, the mark of an external node, and
relations. -/
def ReportNode.toJson (n : ReportNode) : Json :=
  .object
    ([("id", .string n.id), ("name", .string n.name), ("kind", .string n.kind)]
      ++ (n.file.map fun f => ("file", .string f)).toList
      ++ (n.line.map fun l => ("line", Json.ofNat l)).toList
      ++ (if n.isExternal then [("external", .bool true)] else [])
      ++ [("metrics", n.metrics.toJson MetricSet.toJson)]
      ++ (if n.relations.isEmpty then []
          else [("relations", n.relations.toJson Relations.toJson)]))

def Report.toJson (r : Report) : Json :=
  .object
    [("version", .string r.version), ("path", .string r.path), ("files", Json.ofNat r.files),
      ("parsed", Json.ofNat r.parsed), ("restored", Json.ofNat r.restored),
      ("failed", Json.ofNat r.failed), ("project", r.project.toJson MetricSet.toJson),
      ("nodes", Json.ofList ReportNode.toJson r.nodes)]

def Report.json (r : Report) : String := r.toJson.pretty 0 ++ "\n"

def ByName.ofJson? {α : Type} (read : Reads α) : Reads (ByName α) := fun j =>
  (entries? read j).map ByName.ofList

def MetricSet.ofJson? : Reads MetricSet := ByName.ofJson? double?

def Relations.ofJson? : Reads Relations := ByName.ofJson? (list? string?)

def ReportNode.ofJson? : Reads ReportNode := fun j => do
  match ← fields? ["id", "name", "kind", "file", "line", "external", "metrics", "relations"] j with
  | [id, name, kind, file, line, isExternal, metrics, relations] =>
    return { id := ← id.required string?
             name := ← name.required string?
             kind := ← kind.required string?
             file := ← file.optional string?
             line := ← line.optional nat?
             isExternal := ← isExternal.defaulted false bool?
             metrics := ← metrics.required (ByName.ofJson? MetricSet.ofJson?)
             relations := ← relations.defaulted [] (ByName.ofJson? Relations.ofJson?) }
  | _ => none

def Report.ofJson? : Reads Report := fun j => do
  let names := ["version", "path", "files", "parsed", "restored", "failed", "project", "nodes"]
  match ← fields? names j with
  | [version, path, files, parsed, restored, failed, project, nodes] =>
    return { version := ← version.required string?
             path := ← path.required string?
             files := ← files.required nat?
             parsed := ← parsed.required nat?
             restored := ← restored.required nat?
             failed := ← failed.required nat?
             project := ← project.required (ByName.ofJson? MetricSet.ofJson?)
             nodes := ← nodes.required (list? ReportNode.ofJson?) }
  | _ => none

end DesignMetrics
