import DesignMetrics.Proofs.Registry.Folding

/-! Binding files that differ in the spelling of references.
Files with the same folding are bound into units with the same folding, and the nodes of the two
registries are the same up to the spelling of the names that they refer to.
-/

namespace DesignMetrics

namespace Binding

def TypeScope.folded (scope : TypeScope) : TypeScope :=
  ⟨Text.lower scope.name, scope.parent.map Text.lower⟩

/-- A reference points to a name that folds to what its folding points to. -/
theorem lower_typeName? (scope : Option TypeScope) (ref : TypeRef)
    : (typeName? scope ref).map Text.lower = typeName? (scope.map TypeScope.folded) ref.folded := by
  cases ref <;> cases scope <;> rfl

theorem lower_filterMap_typeName? (scope : Option TypeScope) (refs : List TypeRef)
    : (refs.filterMap (typeName? scope)).map Text.lower
      = (refs.map TypeRef.folded).filterMap (typeName? (scope.map TypeScope.folded)) := by
  rw [List.map_filterMap, List.filterMap_map]
  exact congrArg (refs.filterMap ·) (funext (lower_typeName? scope))

theorem lower_bind_typeName? (scope : Option TypeScope) (ref : Option TypeRef)
    : (ref.bind (typeName? scope)).map Text.lower
      = (ref.map TypeRef.folded).bind (typeName? (scope.map TypeScope.folded)) := by
  cases ref with
  | none => rfl
  | some ref => exact lower_typeName? scope ref

theorem lower_parameterTypes (scope : Option TypeScope) (params : List Param)
    : (parameterTypes scope params).map Text.lower
      = parameterTypes (scope.map TypeScope.folded) (params.map Param.folded) := by
  have hints : (params.map Param.folded).filterMap Param.typeHint
      = (params.filterMap Param.typeHint).map TypeRef.folded := by
    rw [List.filterMap_map, List.map_filterMap]
    exact congrArg (params.filterMap ·) (funext fun p => by simp [Param.folded_eq])
  rw [parameterTypes, lower_filterMap_typeName?, ← hints, parameterTypes]

theorem memberId?_folded (typeName : String) (m : Member)
    : memberId? typeName m.folded = memberId? typeName m := by
  cases m with
  | method d => simp [Member.folded, memberId?, MethodDecl.folded_eq]
  | property d => simp [Member.folded, memberId?, PropertyDecl.folded_eq]
  | constant d => rfl

/-- The identifiers of members depend on what each member is called. -/
theorem memberIds_map {typeName : String} {g : Member → Member}
    (ids : ∀ m, memberId? typeName (g m) = memberId? typeName m)
    (repeats : ∀ seen id m, isRepeated seen id (g m) = isRepeated seen id m) (members : List Member)
    : memberIds typeName (members.map g) = memberIds typeName members := by
  have from_ (seen : List NodeId)
      : memberIdsFrom typeName seen (members.map g) = memberIdsFrom typeName seen members := by
    induction members generalizing seen with
    | nil => rfl
    | cons m rest ih =>
      rw [List.map_cons, memberIdsFrom, ids, memberIdsFrom]
      split
      · rw [repeats, ih]
      · rw [ih]
  exact from_ []

theorem constantNames_map {g : Member → Member} (names : ∀ m, constantName? (g m) = constantName? m)
    (members : List Member) : constantNames (members.map g) = constantNames members := by
  rw [constantNames, List.filterMap_map, constantNames]
  exact congrArg (members.filterMap ·) (funext names)

/-- The members of a type have the same identifiers however references are spelled. -/
theorem memberIds_folded (typeName : String) (members : List Member)
    : memberIds typeName (members.map Member.folded) = memberIds typeName members :=
  memberIds_map (memberId?_folded typeName) (fun _ _ m => by cases m <;> rfl) members

theorem constantNames_folded (members : List Member)
    : constantNames (members.map Member.folded) = constantNames members := by
  refine constantNames_map (fun m => ?_) members
  cases m with
  | constant d => cases d; rfl
  | _ => rfl

variable {path : String}

/-- Classes that differ in the spelling of references become the same node, up to spelling. -/
theorem folded_classNode {d d' : ClassDecl} (same : d.folded = d'.folded)
    : (Node.type (classNode path d)).folded = (Node.type (classNode path d')).folded := by
  have both (d : ClassDecl) : (Node.type (classNode path d)).folded
      = .type { classNode path d.folded with
          refs := ⟨(splitQualified d.folded.name).1, d.folded.parent, d.folded.interfaces⟩ } := by
    simp [Node.folded, TypeNode.folded, classNode, ClassDecl.folded_eq, memberIds_folded,
      constantNames_folded]
  rw [both, both, same]

theorem folded_interfaceNode {d d' : InterfaceDecl} (same : d.folded = d'.folded)
    : (Node.type (interfaceNode path d)).folded = (Node.type (interfaceNode path d')).folded := by
  have both (d : InterfaceDecl) : (Node.type (interfaceNode path d)).folded
      = .type (interfaceNode path d.folded) := by
    simp [Node.folded, TypeNode.folded, interfaceNode, InterfaceDecl.folded_eq, memberIds_folded,
      constantNames_folded]
  rw [both, both, same]

theorem folded_functionNode {d d' : FunctionDecl} (same : d.folded = d'.folded)
    {body body' : List Stmt} (bodies : body.map Stmt.folded = body'.map Stmt.folded)
    : (Node.function { functionNode path d with body }).folded
      = (Node.function { functionNode path d' with body := body' }).folded := by
  have both (d : FunctionDecl) (body : List Stmt)
      : (Node.function { functionNode path d with body }).folded
        = .function { functionNode path d.folded with
            params := [], body := body.map Stmt.folded, fingerprint := "" } := by
    simp [Node.folded, FunctionNode.folded, functionNode, FunctionDecl.folded_eq,
      lower_bind_typeName?, lower_filterMap_typeName?, lower_parameterTypes, -Option.map_bind]
  rw [both, both, same, bodies]

/-- Scopes of one type that differ in the spelling of its parent. -/
structure TypeScope.SameFolding (scope scope' : TypeScope) : Prop where
  name : scope.name = scope'.name
  parent : scope.parent.map Text.lower = scope'.parent.map Text.lower

variable {scope' scope : TypeScope}

theorem TypeScope.SameFolding.folded (h : scope.SameFolding scope')
    : scope.folded = scope'.folded := by
  rw [TypeScope.folded, TypeScope.folded, h.name, h.parent]

theorem folded_methodNode (scopes : scope.SameFolding scope') {d d' : MethodDecl}
    (same : d.folded = d'.folded) {body body' : Option (List Stmt)}
    (bodies : body.map (List.map Stmt.folded) = body'.map (List.map Stmt.folded))
    : (Node.method { methodNode path scope d with body }).folded
      = (Node.method { methodNode path scope' d' with body := body' }).folded := by
  have both (scope : TypeScope) (d : MethodDecl) (body : Option (List Stmt))
      : (Node.method { methodNode path scope d with body }).folded
        = .method { methodNode path scope.folded d.folded with
            id := .method scope.name d.folded.name
            refs := { (methodNode path scope.folded d.folded).refs with
              space := (splitQualified scope.name).1, declaringType := scope.name }
            params := [], body := body.map (List.map Stmt.folded), fingerprint := "" } := by
    simp [Node.folded, MethodNode.folded, methodNode, MethodDecl.folded_eq, lower_bind_typeName?,
      lower_filterMap_typeName?, lower_parameterTypes, -Option.map_bind]
  rw [both, both, same, bodies, scopes.folded, scopes.name]

theorem folded_propertyNode (scopes : scope.SameFolding scope') {d d' : PropertyDecl}
    (same : d.folded = d'.folded)
    : (Node.property (propertyNode path scope d)).folded
      = (Node.property (propertyNode path scope' d')).folded := by
  have both (scope : TypeScope) (d : PropertyDecl)
      : (Node.property (propertyNode path scope d)).folded
        = .property { propertyNode path scope.folded d.folded with
            id := .property scope.name d.folded.name
            refs := { (propertyNode path scope.folded d.folded).refs with
              space := (splitQualified scope.name).1, declaringType := scope.name } } := by
    simp [Node.folded, PropertyNode.folded, propertyNode, PropertyDecl.folded_eq,
      lower_bind_typeName?, -Option.map_bind]
  rw [both, both, same, scopes.folded, scopes.name]

end Binding

section

variable {path : String}

abbrev Drafted.SameFolding {α β : Type} (fold : α → β) (d d' : Drafted α) : Prop :=
  d.Alike Node.folded Node.folded fold fold d'

open Drafted (SameFolding)

theorem opening_folded (s : Stmt) : s.folded.opening path = s.opening path := by
  cases s with
  | inNamespace d =>
    obtain ⟨name, body, span⟩ := d
    cases name <;> rfl
  | _ => rfl

theorem sameFolding_draftMember {scope scope' : Binding.TypeScope} (scopes : scope.SameFolding scope')
    (known : List NodeId) {m m' : Member} (same : m.folded = m'.folded)
    (each : ∀ s ∈ m.statements, ∀ s', s.folded = s'.folded
      → ∀ known, SameFolding Stmt.folded (draftStmt path known s) (draftStmt path known s'))
    : SameFolding id (draftMember path scope known m) (draftMember path scope' known m') := by
  cases m with
  | method d =>
    cases m' <;> simp only [Member.folded, reduceCtorEq, Member.method.injEq] at same
    rename_i d'
    have names : d.name = d'.name := by
      simpa [MethodDecl.folded_eq] using congrArg MethodDecl.name same
    have bodies : d.body.map (List.map Stmt.folded) = d'.body.map (List.map Stmt.folded) := by
      simpa [MethodDecl.folded_eq] using congrArg MethodDecl.body same
    have inner := Drafted.Alike.body Node.seeing_folded.id Node.seeing_folded.id bodies each
      (known ++ [.method scope.name d.name])
    rw [draftMember, draftMember, ← scopes.name, ← names]
    exact .declare rfl rfl (Binding.folded_methodNode scopes same inner.value) inner
  | property d =>
    cases m' <;> simp only [Member.folded, reduceCtorEq, Member.property.injEq] at same
    rename_i d'
    have names : d.name = d'.name := by
      simpa [PropertyDecl.folded_eq] using congrArg PropertyDecl.name same
    have nothing : SameFolding id ({ value := () } : Drafted Unit) { value := () } := ⟨rfl, rfl, rfl⟩
    rw [draftMember, draftMember, ← scopes.name, ← names]
    exact .declare rfl rfl (Binding.folded_propertyNode scopes same) nothing
  | constant d =>
    cases m' <;> simp only [Member.folded, reduceCtorEq] at same
    rw [draftMember, draftMember]
    exact ⟨rfl, rfl, rfl⟩

theorem sameFolding_draftMembers {scope scope' : Binding.TypeScope} (scopes : scope.SameFolding scope')
    (known : List NodeId) {members members' : List Member}
    (same : members.map Member.folded = members'.map Member.folded)
    (each : ∀ m ∈ members, ∀ s ∈ m.statements, ∀ s', s.folded = s'.folded
      → ∀ known, SameFolding Stmt.folded (draftStmt path known s) (draftStmt path known s'))
    : SameFolding id (draftMembers path scope known members)
        (draftMembers path scope' known members') :=
  .members Node.seeing_folded.id Node.seeing_folded.id same
    (fun m member _ folds known => sameFolding_draftMember scopes known folds (each m member)) known

/-- Statements that differ in the spelling of references are drafted alike, by induction on the bodies
in them. -/
theorem sameFolding_draftStmt (s : Stmt)
    : ∀ s', s.folded = s'.folded
      → ∀ known, SameFolding Stmt.folded (draftStmt path known s) (draftStmt path known s') := by
  induction s using Stmt.bodyInduction with
  | classDecl d ih =>
    intro s' same known
    cases s' <;> simp only [Stmt.folded, reduceCtorEq, Stmt.classDecl.injEq] at same
    rename_i d'
    have names : d.name = d'.name := by
      simpa [ClassDecl.folded_eq] using congrArg ClassDecl.name same
    have scopes : (Binding.TypeScope.mk d.name d.parent).SameFolding ⟨d.name, d'.parent⟩ :=
      ⟨rfl, by simpa [ClassDecl.folded_eq] using congrArg ClassDecl.parent same⟩
    have members := sameFolding_draftMembers scopes (known ++ [.classType d.name])
      (by simpa [ClassDecl.folded_eq] using congrArg ClassDecl.members same) ih
    rw [draftStmt, draftStmt, ← names]
    exact .declare (congrArg Stmt.classDecl same) rfl (Binding.folded_classNode same) members
  | interfaceDecl d ih =>
    intro s' same known
    cases s' <;> simp only [Stmt.folded, reduceCtorEq, Stmt.interfaceDecl.injEq] at same
    rename_i d'
    have names : d.name = d'.name := by
      simpa [InterfaceDecl.folded_eq] using congrArg InterfaceDecl.name same
    have scopes : (Binding.TypeScope.mk d.name none).SameFolding ⟨d.name, none⟩ := ⟨rfl, rfl⟩
    have members := sameFolding_draftMembers scopes (known ++ [.interfaceType d.name])
      (by simpa [InterfaceDecl.folded_eq] using congrArg InterfaceDecl.members same) ih
    rw [draftStmt, draftStmt, ← names]
    exact .declare (congrArg Stmt.interfaceDecl same) rfl (Binding.folded_interfaceNode same) members
  | functionDecl d ih =>
    intro s' same known
    cases s' <;> simp only [Stmt.folded, reduceCtorEq, Stmt.functionDecl.injEq] at same
    rename_i d'
    have names : d.name = d'.name := by
      simpa [FunctionDecl.folded_eq] using congrArg FunctionDecl.name same
    have body := Drafted.Alike.stmts Node.seeing_folded.id Node.seeing_folded.id
      (by simpa [FunctionDecl.folded_eq] using congrArg FunctionDecl.body same) ih
      (known ++ [.function d.name])
    rw [draftStmt, draftStmt, ← names]
    exact .declare (congrArg Stmt.functionDecl same) rfl
      (Binding.folded_functionNode same body.value) body
  | other s kind ih =>
    intro s' same known
    have kind' : s'.isDeclaration = false := by
      rw [← s'.isDeclaration_folded, ← same, s.isDeclaration_folded, kind]
    have opened : s'.opening path = s.opening path := by
      rw [← opening_folded s', ← same, opening_folded]
    have bodies : s.bodies.map (List.map Stmt.folded) = s'.bodies.map (List.map Stmt.folded) := by
      rw [← s.bodies_folded, same, s'.bodies_folded]
    have inner := Drafted.Alike.bodies Node.seeing_folded.id Node.seeing_folded.id bodies ih
      (known ++ (s.opening path).ids)
    rw [draftStmt_of_other kind, draftStmt_of_other kind', opened]
    have around : SameFolding id (⟨(), s.opening path, []⟩ : Drafted Unit) ⟨(), s.opening path, []⟩ :=
      ⟨rfl, rfl, rfl⟩
    refine around.both inner ?_
    rw [Stmt.folded_rebuild, Stmt.folded_rebuild, same, inner.value]

end

/-- Files that differ in the spelling of references are bound alike, one after the other. -/
theorem Registry.Respelled.bindAll {files files' : List (SourceFile × String)} {r r' : Registry}
    (h : r.Respelled r') (same : files.map (·.1.folded) = files'.map (·.1.folded))
    : (bindAll r files).2.Respelled (bindAll r' files').2
      ∧ (DesignMetrics.bindAll r files).1.map CompilationUnit.folded
        = (DesignMetrics.bindAll r' files').1.map CompilationUnit.folded := by
  refine TidyAlike.bindAll Node.seeing_folded.id (fun file file' here => ?_) h same
  have paths : file.path = file'.path := (SourceFile.mk.inj here).1
  have statements : file.statements.map Stmt.folded = file'.statements.map Stmt.folded := by
    simpa using (SourceFile.mk.inj here).2
  refine ⟨paths, fun known => ?_⟩
  rw [SourceFile.draft, SourceFile.draft, ← paths]
  exact .stmts Node.seeing_folded.id Node.seeing_folded.id statements
    (fun s _ => sameFolding_draftStmt s) known

end DesignMetrics
