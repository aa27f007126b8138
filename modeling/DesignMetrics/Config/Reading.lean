import DesignMetrics.Config.Basic
import DesignMetrics.Text.Basic
import DesignMetrics.Yaml.Decode

/-!
Configurations in YAML. Fields that are not known are passed over; a known one stands at most once.
-/

namespace DesignMetrics

open Yaml

def Yaml.named? {α : Type} (ofName? : String → Option α) : Reads α := fun document node =>
  (name? document node).bind ofName?

def CacheConfig.ofYaml? : Reads CacheConfig := fun document node => do
  let entries ← entries? document node
  return { enabled := ← field? "enabled" true bool? document entries
           kind := ← field? "driver" .directory (named? CacheKind.ofName?) document entries
           location := ← field? "location" none (optional? text?) document entries
           salt := ← field? "salt" "" text? document entries }

def ReportConfig.ofYaml? : Reads ReportConfig := fun document node => do
  let entries ← entries? document node
  return { format := ← field? "format" .pretty (named? ReportFormat.ofName?) document entries
           output := ← field? "output" none (optional? text?) document entries }

def Config.ofYaml? : Reads Config := fun document node => do
  let standard : Config := {}
  let entries ← entries? document node
  return { analyzers := ← field? "analyzers" standard.analyzers (list? text?) document entries
           excludedPaths := ← field? "excluded_paths" [] (list? text?) document entries
           extensions := ← field? "extensions" standard.extensions (list? text?) document entries
           cache := ← field? "cache" {} CacheConfig.ofYaml? document entries
           report := ← field? "report" {} ReportConfig.ofYaml? document entries }

def Config.ofText? (text : String) : Option Config :=
  if (Text.trim text).isEmpty then some {}
  else do
    let document ← Document.ofText? text
    Config.ofYaml? document document

end DesignMetrics
