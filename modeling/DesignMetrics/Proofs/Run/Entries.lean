import DesignMetrics.Proofs.Binding.Snapshots
import DesignMetrics.Proofs.Cache.Keys
import DesignMetrics.Proofs.Metric.Replay
import DesignMetrics.Proofs.Syntax.Injective

/-! What runs keep in a cache.
What stands under a key depends on the sources alone: the hash in the key tells which file or which
declaration it comes from.
-/

namespace DesignMetrics

open Digest

def Member.callable? : Member → Option (ByteArray × List Stmt)
  | .method d => some (d.toJson.text, d.body.getD [])
  | .property _ | .constant _ => none

def Part.callables : Part → List (ByteArray × List Stmt)
  | .stmt (.classDecl d) => d.members.filterMap Member.callable?
  | .stmt (.interfaceDecl d) => d.members.filterMap Member.callable?
  | .stmt (.functionDecl d) => [(d.toJson.text, d.body)]
  | _ => []

def SourceFile.callables (file : SourceFile) : List (ByteArray × List Stmt) :=
  file.parts.flatMap Part.callables

variable {p : Part} {text : ByteArray} {file : SourceFile}

theorem Part.callables_of_scope {scope : Binding.TypeScope} {members : List Member}
    (h : p.scope? = some (scope, members)) : p.callables = members.filterMap Member.callable? := by
  unfold scope? at h
  split at h
  · obtain ⟨_, rfl⟩ := Prod.mk.inj (Option.some.inj h)
    rfl
  · obtain ⟨_, rfl⟩ := Prod.mk.inj (Option.some.inj h)
    rfl
  · simp at h

variable {body : List Stmt}

/-- What is listed for a part is the text and body of a method or of a function. -/
theorem Part.callables_cases (h : (text, body) ∈ p.callables)
    : (∃ d : MethodDecl, text = d.toJson.text ∧ body = d.body.getD [])
      ∨ ∃ d : FunctionDecl, text = d.toJson.text ∧ body = d.body := by
  have members {ms : List Member} (inside : (text, body) ∈ ms.filterMap Member.callable?)
      : ∃ d : MethodDecl, text = d.toJson.text ∧ body = d.body.getD [] := by
    obtain ⟨m, _, same⟩ := List.mem_filterMap.mp inside
    cases m with
    | method d =>
      obtain ⟨rfl, rfl⟩ := Prod.mk.inj (Option.some.inj same)
      exact ⟨d, rfl, rfl⟩
    | _ => simp [Member.callable?] at same
  unfold callables at h
  split at h
  · exact .inl (members h)
  · exact .inl (members h)
  · rename_i d
    obtain ⟨rfl, rfl⟩ := Prod.mk.inj (List.mem_singleton.mp h)
    exact .inr ⟨d, rfl, rfl⟩
  · simp at h

/-- Methods and functions with one text have one body. -/
theorem Part.body_eq_of_callables {q : Part} {body' : List Stmt} (left : (text, body) ∈ p.callables)
    (right : (text, body') ∈ q.callables) : body = body' := by
  rcases callables_cases left with ⟨d, rfl, rfl⟩ | ⟨d, rfl, rfl⟩ <;>
    rcases callables_cases right with ⟨d', same, rfl⟩ | ⟨d', same, rfl⟩
  · rw [MethodDecl.eq_of_text_eq same]
  · exact absurd same MethodDecl.text_ne
  · exact absurd same.symm MethodDecl.text_ne
  · rw [FunctionDecl.eq_of_text_eq same]

/-- A node that can be called has the fingerprint of its declaration, and a body that counts alike. -/
theorem Stands.exists_callable {path : String} {n : Node} (h : Stands path p n) {callable : Callable}
    (named : Callable.ofVisit? n.visit = some callable) (code : n.visit.body? = some body)
    : ∃ text own, (text, own) ∈ p.callables ∧ callable.fingerprint = Blake3.hexHash text
      ∧ ComplexityRecord.ofBody body = .ofBody own := by
  cases h with
  | function d known =>
    obtain rfl := Option.some.inj named
    obtain rfl := Option.some.inj code
    exact ⟨_, _, List.mem_singleton.mpr rfl, rfl, by rw [ComplexityRecord.ofBody, tally_draft]; rfl⟩
  | @method _ scope members d declares member known =>
    obtain rfl := Option.some.inj named
    obtain rfl := Option.some.inj code
    refine ⟨d.toJson.text, d.body.getD [], ?_, rfl, ?_⟩
    · rw [p.callables_of_scope declares]
      exact List.mem_filterMap.mpr ⟨_, member, rfl⟩
    · rw [ComplexityRecord.ofBody, tally_draftBody]
      rfl
  | _ => simp [Node.visit, Callable.ofVisit?] at named

/-- What may stand in a cache that runs over the sources have shared. -/
inductive Entry (parser : Parser) (sources : List InputFile) : CacheKey → ByteArray → Prop
  | unit {s : InputFile} {file : SourceFile} (member : s ∈ sources) (parsed : parser s = some file)
      (clean : (file.draft []).shadowed = [])
    : Entry parser sources (Run.unitKey s) (file.snapshot s.fingerprint).toJson.text
  | complexity {file : SourceFile} {text : ByteArray} {body : List Stmt} (id : NodeId)
      (parsed : file ∈ sources.filterMap parser) (declared : (text, body) ∈ file.callables)
    : Entry parser sources (Callable.mk id (Blake3.hexHash text) false).cacheKey
        (ComplexityRecord.ofBody body).payload

def declarationTexts (parser : Parser) (sources : List InputFile) : List ByteArray :=
  (sources.filterMap parser).flatMap fun file => file.callables.map Prod.fst

/-- What is asked of sources whose runs share a cache: their files have not been bound, and hashes tell
contents from contents and declarations from declarations. -/
structure Shareable (parser : Parser) (sources : List InputFile) : Prop where
  unbound : ∀ file ∈ sources.filterMap parser, file.Unbound
  contents : Blake3.Apart (sources.map InputFile.content)
  declarations : Blake3.Apart (declarationTexts parser sources)

section

variable {parser : Parser} {sources : List InputFile} (shareable : Shareable parser sources)

include shareable

/-- All that stands under the key of a unit is the snapshot of its file. -/
theorem Entry.eq_snapshot {s : InputFile} (member : s ∈ sources) {payload : ByteArray}
    (h : Entry parser sources (Run.unitKey s) payload)
    : ∃ file, parser s = some file ∧ (file.draft []).shadowed = []
      ∧ payload = (file.snapshot s.fingerprint).toJson.text := by
  generalize same : Run.unitKey s = key at h
  cases h with
  | unit other parsed clean =>
    obtain rfl := Run.eq_of_unitKey shareable.contents member other same
    exact ⟨_, parsed, clean, rfl⟩
  | complexity _ _ _ =>
    exact absurd (congrArg CacheKey.tag same) (by simp [Callable.cacheKey, Run.unitKey])

/-- All that stands under the key of a method or function is the record of its body. -/
theorem Entry.eq_payload (parsed : file ∈ sources.filterMap parser)
    (declared : (text, body) ∈ file.callables) {callable : Callable}
    (hash : callable.fingerprint = Blake3.hexHash text) {payload : ByteArray}
    (h : Entry parser sources callable.cacheKey payload)
    : payload = (ComplexityRecord.ofBody body).payload := by
  generalize same : callable.cacheKey = key at h
  cases h with
  | unit _ _ _ =>
    exact absurd (congrArg CacheKey.tag same) (by simp [Callable.cacheKey, Run.unitKey])
  | @complexity file' text' body' id parsed' declared' =>
    have texts {file : SourceFile} {text : ByteArray} {body : List Stmt}
        (parsed : file ∈ sources.filterMap parser) (declared : (text, body) ∈ file.callables)
        : text ∈ declarationTexts parser sources :=
      List.mem_flatMap.mpr ⟨file, parsed, List.mem_map.mpr ⟨_, declared, rfl⟩⟩
    have keys := congrArg CacheKey.key same
    simp only [Callable.cacheKey, hash] at keys
    obtain rfl : text = text' := shareable.declarations _ (texts parsed declared) _
      (texts parsed' declared') (Blake3.eq_of_keys keys).2
    obtain ⟨p, _, here⟩ := List.mem_flatMap.mp declared
    obtain ⟨q, _, there⟩ := List.mem_flatMap.mp declared'
    rw [Part.body_eq_of_callables here there]

end

/-- What is registered once a snapshot is attached was registered before or comes from the snapshot. -/
theorem Snapshot.mem_attach {s : Snapshot} {r : Registry} {n : Node} (h : n ∈ (s.attach r).toList)
    : n ∈ r.toList ∨ ∃ kept ∈ s.nodes, n = kept.withCached true := by
  rw [attach, Registry.toList_registerAll] at h
  refine (mem_of_mem_upsertAll h).imp_right fun new => ?_
  obtain ⟨kept, inside, rfl⟩ := List.mem_map.mp new
  exact ⟨kept, inside, rfl⟩

/-- Whether what is registered stands in the files, apart from being marked as cached. -/
def Grounded (files : List SourceFile) (r : Registry) : Prop :=
  ∀ n ∈ r.toList, ∃ path p, Sourced files path p ∧ Stands path p n.bare

namespace Grounded

variable {files : List SourceFile} {r : Registry}

theorem empty (files : List SourceFile) : Grounded files ∅ := by simp [Grounded]

/-- What a grounded registry tracks are its own identifiers. -/
theorem tracks (h : Grounded files r) : Tracks (r.toList.map Node.id) r where
  ids _ := Iff.rfl
  own n member := by
    obtain ⟨_, _, _, stands⟩ := h n member
    simpa using stands.isUserDefined

theorem bind (h : Grounded files r) (member : file ∈ files) (fingerprint : String)
    : Grounded files (file.bind fingerprint r).2 := by
  obtain ⟨r', ran, nodes, _⟩ := file.bind_eq h.tracks fingerprint
  rw [ran]
  intro n there
  have there : n ∈ r'.toList := there
  rw [nodes] at there
  rcases mem_of_mem_upsertAll there with before | new
  · exact h n before
  · obtain ⟨path, p, sourced, stands⟩ := (file.newIn_draft member _).new.origin_of_mem new
    exact ⟨path, p, sourced, stands.bare_eq.symm ▸ stands⟩

theorem attach (h : Grounded files r) (member : file ∈ files) (fingerprint : String)
    : Grounded files ((file.snapshot fingerprint).attach r) := by
  intro n there
  rcases Snapshot.mem_attach there with before | ⟨kept, inside, rfl⟩
  · exact h n before
  · obtain ⟨path, p, sourced, stands⟩ := file.mem_snapshot member inside
    refine ⟨path, p, sourced, ?_⟩
    rw [Node.bare_withCached, stands.bare_eq]
    exact stands

/-- Nothing but its record stands under the key of what is entered on a walk through a grounded
registry. -/
theorem settles {parser : Parser} {sources : List InputFile} (shareable : Shareable parser sources)
    (h : Grounded (sources.filterMap parser) r) (units : List CompilationUnit)
    : Walk.Visits (fun v => Settles (Entry parser sources) v.bare) (Walk.units r units) := by
  refine Walk.visits_of_parts (fun _ _ _ _ code => ?_) (fun n there => ?_)
    (fun _ _ visit _ _ _ code => ?_) _ _
  · simp [Visit.bare, Visit.body?] at code
  · obtain ⟨_, p, ⟨file, parsed, _, inside⟩, stands⟩ := h n there
    intro callable body named code payload
    rw [Node.visit_bare] at named code
    obtain ⟨text, own, listed, hash, counted⟩ := stands.exists_callable named code
    have declared : (text, own) ∈ file.callables := List.mem_flatMap.mpr ⟨p, inside, listed⟩
    rw [counted]
    constructor
    · exact Entry.eq_payload shareable parsed declared hash
    · rintro rfl
      have stored : Entry parser sources (Callable.mk callable.id (Blake3.hexHash text) false).cacheKey
          (ComplexityRecord.ofBody own).payload := .complexity callable.id parsed declared
      rw [← hash] at stored
      exact stored
  · rw [Visit.body?_bare, (Part.visit?_plain visit).1] at code
    simp at code

end Grounded

end DesignMetrics
