import DesignMetrics.Config.Basic

/-!
Configurations as JSON values, written and read.
-/

namespace DesignMetrics

open Json

def CacheConfig.toJson (c : CacheConfig) : Json :=
  .object
    [("enabled", .bool c.enabled),
     ("driver", .string c.kind.name),
     ("location", .ofOption .string c.location),
     ("salt", .string c.salt)]

def ReportConfig.toJson (c : ReportConfig) : Json :=
  .object
    [("format", .string c.format.name),
     ("output", .ofOption .string c.output)]

def Config.toJson (c : Config) : Json :=
  .object
    [("analyzers", .ofList .string c.analyzers),
     ("excluded_paths", .ofList .string c.excludedPaths),
     ("extensions", .ofList .string c.extensions),
     ("cache", c.cache.toJson),
     ("report", c.report.toJson)]

def Json.name? {α : Type} (ofName? : String → Option α) : Reads α := fun j => do
  let (name, held) ← choice? j
  let found ← ofName? name
  unit? .ofValue held
  return found

def CacheConfig.ofJson? : Reads CacheConfig := fun j => do
  match ← fields? ["enabled", "driver", "location", "salt"] j with
  | [enabled, kind, location, salt] =>
    return { enabled := ← enabled.defaulted true bool?
             kind := ← kind.defaulted .directory (name? CacheKind.ofName?)
             location := ← location.defaulted none (optional? string?)
             salt := ← salt.defaulted "" string? }
  | _ => none

def ReportConfig.ofJson? : Reads ReportConfig := fun j => do
  match ← fields? ["format", "output"] j with
  | [format, output] =>
    return { format := ← format.defaulted .pretty (name? ReportFormat.ofName?)
             output := ← output.defaulted none (optional? string?) }
  | _ => none

def Config.ofJson? : Reads Config := fun j => do
  let standard : Config := {}
  match ← fields? ["analyzers", "excluded_paths", "extensions", "cache", "report"] j with
  | [analyzers, excludedPaths, extensions, cache, report] =>
    return { analyzers := ← analyzers.defaulted standard.analyzers (list? string?)
             excludedPaths := ← excludedPaths.defaulted [] (list? string?)
             extensions := ← extensions.defaulted standard.extensions (list? string?)
             cache := ← cache.defaulted {} CacheConfig.ofJson?
             report := ← report.defaulted {} ReportConfig.ofJson? }
  | _ => none

end DesignMetrics
