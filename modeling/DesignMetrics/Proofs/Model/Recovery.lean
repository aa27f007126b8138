import DesignMetrics.Model.Decoding
import DesignMetrics.Model.Encoding
import DesignMetrics.Proofs.Syntax.Recovery

/-! Snapshots that are read back are the snapshots that were written.
Whether a node comes from the cache is not written, so every node is read as one that does not.
-/

namespace DesignMetrics

open Json

variable {levels : Nat}

theorem Location.recovers : Recovers Location.toJson Location.ofJson? levels where
  reading dimmed := dimmed.record rfl (by decide) fun
    | .cons file (.cons first (.cons last .nil)) =>
      .bind (recovers_string.reading file) (.bind (recovers_word.reading first)
        (.bind (recovers_word.reading last) (.same _)))
  broken := rfl

theorem recovers_location
    : Recovers (ofOption Location.toJson) (optional? Location.ofJson?) levels :=
  Location.recovers.option (by simp [Location.toJson])

theorem TypeKind.recovers : Recovers TypeKind.toJson TypeKind.ofJson? levels where
  reading {kind j} dimmed := by
    cases kind <;> exact dimmed.name (.same _)
  broken := rfl

theorem TypeRefs.recovers : Recovers TypeRefs.toJson TypeRefs.ofJson? levels where
  reading dimmed := dimmed.record rfl (by decide) fun
    | .cons space (.cons parent (.cons interfaces .nil)) =>
      .bind (recovers_string.reading space) (.bind (recovers_name.reading parent)
        (.bind (recovers_string.list.reading interfaces) (.same _)))
  broken := rfl

theorem MethodRefs.recovers : Recovers MethodRefs.toJson MethodRefs.ofJson? levels where
  reading dimmed := dimmed.record rfl (by decide) fun
    | .cons space (.cons owner (.cons returnType (.cons thrown (.cons parameterTypes .nil)))) =>
      .bind (recovers_string.reading space) (.bind (recovers_string.reading owner)
        (.bind (recovers_name.reading returnType) (.bind (recovers_string.list.reading thrown)
          (.bind (recovers_string.list.reading parameterTypes) (.same _)))))
  broken := rfl

theorem FunctionRefs.recovers : Recovers FunctionRefs.toJson FunctionRefs.ofJson? levels where
  reading dimmed := dimmed.record rfl (by decide) fun
    | .cons space (.cons returnType (.cons thrown (.cons parameterTypes .nil))) =>
      .bind (recovers_string.reading space) (.bind (recovers_name.reading returnType)
        (.bind (recovers_string.list.reading thrown)
          (.bind (recovers_string.list.reading parameterTypes) (.same _))))
  broken := rfl

theorem PropertyRefs.recovers : Recovers PropertyRefs.toJson PropertyRefs.ofJson? levels where
  reading dimmed := dimmed.record rfl (by decide) fun
    | .cons space (.cons owner (.cons typeName .nil)) =>
      .bind (recovers_string.reading space) (.bind (recovers_string.reading owner)
        (.bind (recovers_name.reading typeName) (.same _)))
  broken := rfl

theorem recovers_ids : Recovers (ofList NodeId.toJson) (list? NodeId.ofJson?) levels :=
  NodeId.recovers.list

theorem recovers_params (w : Leeway)
    : Recovers (fun items => .array (Param.listToJson items)) (list? (Param.ofJson? w)) levels :=
  (Param.recovers w (Expr.recovers w)).items Param.listToJson_eq

@[simp] theorem NodeId.isDiscrete_toJson (id : NodeId) : id.toJson.isDiscrete := by simp [toJson]

@[simp] theorem Location.isDiscrete_toJson (l : Location) : l.toJson.isDiscrete := by simp [toJson]

@[simp] theorem isDiscrete_location (l : Option Location)
    : (ofOption Location.toJson l).isDiscrete :=
  isDiscrete_ofOption Location.isDiscrete_toJson l

@[simp] theorem isDiscrete_ids (ids : List NodeId) : (ofList NodeId.toJson ids).isDiscrete :=
  isDiscrete_ofList NodeId.isDiscrete_toJson ids

theorem Node.isDiscrete_toJson (n : Node) : n.toJson.isDiscrete := by
  cases n with
  | space n => simp [toJson, toFields]
  | type n => cases kind : n.kind <;> simp [toJson, toFields, kind, TypeKind.toJson, TypeRefs.toJson]
  | method n =>
    simp [toJson, toFields, MethodRefs.toJson]
  | function n =>
    simp [toJson, toFields, FunctionRefs.toJson]
  | property n => simp [toJson, toFields, PropertyRefs.toJson]

/-- What a node is stands in its first field. -/
theorem Json.Dimmed.node {β : Type} {tag : String} {fields : List (String × Json)} {j : Json} {b : β}
    {next : String × Json → Option β} (h : Dimmed (.object (("node", .string tag) :: fields)) j)
    (others : ∀ k ∈ fields.map Prod.fst, k ≠ "node")
    (inner : ∀ {j'}, Dimmed (.object fields) j'
      → ReadsBack b (j' = .object fields) ((Json.object fields).depth ≤ levels) (next (tag, j')))
    : ReadsBack b (j = .object (("node", .string tag) :: fields))
        ((Json.object (("node", .string tag) :: fields)).depth ≤ levels) (Node.tag? j >>= next) := by
  cases h with
  | broken => exact .nothing b (by simp)
  | @object _ fields' keys each =>
    cases fields' with
    | nil => simp at keys
    | cons first rest =>
      obtain ⟨k, value⟩ := first
      obtain ⟨rfl, same⟩ : k = "node" ∧ rest.map Prod.fst = fields.map Prod.fst := by
        simpa using keys
      have apart : ∀ f ∈ rest, f.1 ≠ "node" := by
        intro f member
        exact others f.1 (same ▸ List.mem_map_of_mem member)
      have none : rest.filter (fun f => f.1 == "node") = [] := by
        rw [List.filter_eq_nil_iff]
        intro f member
        simpa using apart f member
      have all : rest.filter (fun f => f.1 != "node") = rest := by
        rw [List.filter_eq_self]
        intro f member
        simpa using apart f member
      cases each with
      | cons text each =>
        simp only [Node.tag?, List.filter_cons, none, all]
        cases text with
        | broken => exact .nothing b (by simp)
        | string =>
          refine (inner (.object same each)).imp (fun whole => ?_) (fun whole => ?_) fun _ shallow => ?_
          · rw [Json.object.inj whole]
          · simpa using whole
          · simpa [depth, depthOfFields] using shallow

/-- A node is read back as one that does not come from the cache. -/
theorem Node.reading_ofJson? {n : Node} {j : Json} (dimmed : Dimmed n.toJson j)
    : ReadsBack (n.withCached false) (j = n.toJson) (n.toJson.depth ≤ levels) (Node.ofJson? j) := by
  have stmts : Recovers Stmt.toJson (Stmt.ofJson? .ofTagged) levels := Stmt.recovers .ofTagged
  refine .guarded (fun whole => whole ▸ isSound_of_isMadeOf _ n.isDiscrete_toJson) ?_
  cases n with
  | space n =>
    refine dimmed.node (by simp) fun rest => .wrap (a := { n with cached := false }) ?_ _
    exact rest.record rfl (by decide) fun
      | .cons id (.cons name (.cons userDefined (.cons location .nil))) =>
        .bind (NodeId.recovers.reading id) (.bind (recovers_string.reading name)
          (.bind (recovers_bool.reading userDefined) (.bind (recovers_location.reading location) (.same _))))
  | type n =>
    refine dimmed.node (by simp) fun rest => .wrap (a := { n with cached := false }) ?_ _
    exact rest.record rfl (by decide) fun
      | .cons id (.cons name (.cons kind (.cons modifiers (.cons userDefined others)))) =>
        match others with
        | .cons location (.cons refs (.cons members (.cons constants .nil))) =>
          .bind (NodeId.recovers.reading id) (.bind (recovers_string.reading name)
            (.bind (TypeKind.recovers.reading kind) (.bind (Modifiers.recovers.reading modifiers)
              (.bind (recovers_bool.reading userDefined) (.bind (recovers_location.reading location)
                (.bind (TypeRefs.recovers.reading refs) (.bind (recovers_ids.reading members)
                  (.bind (recovers_string.list.reading constants) (.same _)))))))))
  | method n =>
    refine dimmed.node (by simp) fun rest => .wrap (a := { n with cached := false }) ?_ _
    exact rest.record rfl (by decide) fun
      | .cons id (.cons name (.cons modifiers (.cons location (.cons refs (.cons params
          (.cons body (.cons fingerprint .nil))))))) =>
        .bind (NodeId.recovers.reading id) (.bind (recovers_string.reading name)
          (.bind (Modifiers.recovers.reading modifiers) (.bind (Location.recovers.reading location)
            (.bind (MethodRefs.recovers.reading refs) (.bind ((recovers_params _).reading params)
              (.bind ((Stmt.recovers_body stmts).reading body)
                (.bind (recovers_string.reading fingerprint) (.same _))))))))
  | function n =>
    refine dimmed.node (by simp) fun rest => .wrap (a := { n with cached := false }) ?_ _
    exact rest.record rfl (by decide) fun
      | .cons id (.cons name (.cons location (.cons refs (.cons params (.cons body
          (.cons fingerprint .nil)))))) =>
        .bind (NodeId.recovers.reading id) (.bind (recovers_string.reading name)
          (.bind (Location.recovers.reading location) (.bind (FunctionRefs.recovers.reading refs)
            (.bind ((recovers_params _).reading params) (.bind ((Stmt.recovers_list stmts).reading body)
              (.bind (recovers_string.reading fingerprint) (.same _)))))))
  | property n =>
    refine dimmed.node (by simp) fun rest => .wrap (a := { n with cached := false }) ?_ _
    exact rest.record rfl (by decide) fun
      | .cons id (.cons name (.cons modifiers (.cons location (.cons refs .nil)))) =>
        .bind (NodeId.recovers.reading id) (.bind (recovers_string.reading name)
          (.bind (Modifiers.recovers.reading modifiers) (.bind (Location.recovers.reading location)
            (.bind (PropertyRefs.recovers.reading refs) (.same _)))))

theorem CompilationUnit.recovers (w : Leeway)
    : Recovers CompilationUnit.toJson (CompilationUnit.ofJson? w) levels where
  reading dimmed := dimmed.record rfl (by decide) fun
    | .cons path (.cons fingerprint (.cons statements (.cons declared (.cons shadowed .nil)))) =>
      .bind (recovers_string.reading path) (.bind (recovers_string.reading fingerprint)
        (.bind ((Stmt.recovers_list (Stmt.recovers w)).reading statements)
          (.bind (recovers_ids.reading declared) (.bind (recovers_ids.reading shadowed) (.same _)))))
  broken := rfl

def Snapshot.bare (s : Snapshot) : Snapshot := ⟨s.unit, s.nodes.map (Node.withCached false)⟩

theorem Snapshot.reading_ofJson? {s : Snapshot} {j : Json} (dimmed : Dimmed s.toJson j) (w : Leeway)
    : ReadsBack s.bare (j = s.toJson) (s.toJson.depth ≤ levels) (Snapshot.ofJson? w j) :=
  dimmed.record rfl (by decide) fun
    | .cons unit (.cons nodes .nil) =>
      .bind ((CompilationUnit.recovers w).reading unit)
        (.bind (ReadsBack.list Node.reading_ofJson? nodes) (.same _))

theorem Snapshot.isDiscrete_toJson (s : Snapshot) : s.toJson.isDiscrete := by
  have nodes := isDiscrete_ofList Node.isDiscrete_toJson s.nodes
  simp [toJson, CompilationUnit.toJson, nodes]

/-- A snapshot is read back from its stored text unless it is nested too deeply. -/
theorem Snapshot.read_stored (s : Snapshot) (w : Leeway)
    : (parseStored? s.toJson.compact.toUTF8).bind (Snapshot.ofJson? w)
      = if s.toJson.depth ≤ nestingLimit then some s.bare else none := by
  obtain ⟨parsed, dimmed⟩ := parseStored?_compact s.isDiscrete_toJson
  have reading : ReadsBack s.bare _ (s.toJson.depth ≤ nestingLimit) _ :=
    Snapshot.reading_ofJson? dimmed w
  rw [parsed, Option.bind_some]
  split
  · rename_i shallow
    exact reading.found (cut_eq_self _ _ shallow) shallow
  · rename_i deep
    rw [Option.eq_none_iff_forall_ne_some]
    intro b found
    have same := (reading.only b found).2
    exact deep (same ▸ depth_cut_le nestingLimit s.toJson)

/-- Nothing but the snapshot is read from its stored text. -/
theorem Snapshot.only_stored {s s' : Snapshot} {w : Leeway}
    (h : (parseStored? s.toJson.compact.toUTF8).bind (Snapshot.ofJson? w) = some s') : s' = s.bare := by
  rw [s.read_stored] at h
  split at h
  · exact (Option.some.inj h).symm
  · simp at h

end DesignMetrics
