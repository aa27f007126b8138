import DesignMetrics.Proofs.Binding.Folding
import DesignMetrics.Proofs.Binding.Values
import DesignMetrics.Proofs.Syntax.Flattening

/-! Binding files that differ in how chains of conditions are nested.
A chain is bound branch by branch in the order of the source, and joining chains keeps this order. So the
same is declared, in the same order, and the nodes are the same up to the nesting in their bodies.
-/

namespace DesignMetrics

-- One chain

namespace Stmt

def isIf : Stmt → Bool
  | .ifElse .. => true
  | _ => false

theorem flattenIf_of_not_isIf {s : Stmt} (h : s.isIf = false) : s.flattenIf = s := by
  cases s <;> first | rfl | simp [isIf] at h

theorem isIf_rebuild (s : Stmt) (new : List (List Stmt)) : (s.rebuild new).isIf = s.isIf := by
  cases s <;> cases new <;> rfl

end Stmt

section

variable {path : String}

/-- Binding makes an `if` of an `if` and of nothing else. -/
theorem isIf_draftStmt (known : List NodeId) (s : Stmt)
    : (draftStmt path known s).value.isIf = s.isIf := by
  by_cases kind : s.isDeclaration
  · have none : s.isIf = false := by cases s <;> first | rfl | simp [Stmt.isDeclaration] at kind
    rcases value_draftStmt_of_declaration known kind with same | ⟨id, same⟩
    · rw [same]
    · rw [same, none]
      rfl
  · rw [draftStmt_of_other (by simpa using kind)]
    exact s.isIf_rebuild _

/-- Where a chain ends, it ends after binding. -/
theorem chained_draftBody (known : List NodeId) {otherwise : Option (List Stmt)}
    (ends : Stmt.chained otherwise = ([], otherwise))
    : Stmt.chained (draftBody path known otherwise).value
      = ([], (draftBody path known otherwise).value) := by
  rcases Stmt.chained_cases (draftBody path known otherwise).value with same | ⟨_, _, _, _, form, _⟩
  · exact same
  · exfalso
    cases otherwise with
    | none => simp [draftBody] at form
    | some body =>
      rw [draftBody, Drafted.map] at form
      have single := Option.some.inj form
      cases body with
      | nil => simp [draftStmts] at single
      | cons s rest =>
        rw [draftStmts, Drafted.both] at single
        obtain ⟨here, later⟩ := List.cons_eq_cons.mp single
        have alone : rest = [] := by
          cases rest with
          | nil => rfl
          | cons => simp [draftStmts, Drafted.both] at later
        have kind : (draftStmt path known s).value.isIf = s.isIf := isIf_draftStmt known s
        rw [here] at kind
        subst alone
        cases s <;> simp [Stmt.isIf] at kind
        simp [Stmt.chained] at ends

/-- New bodies of a chain are dealt out to its branches. -/
theorem rebuild_ifElse (cond : Expr) (body first : List Stmt) {elseIfs : List ElseIf}
    (otherwise : Option (List Stmt)) {new : List (List Stmt)} (h : new.length = elseIfs.length)
    (last : List (List Stmt))
    : (Stmt.ifElse cond body elseIfs otherwise).rebuild (first :: (new ++ last))
      = .ifElse cond first (elseIfs.zipWith ElseIf.withBody new) last.head? := by
  obtain ⟨dealt, ends⟩ := Binding.rebuild_alternatives ElseIf.withBody h last
  rw [Stmt.rebuild, dealt, ends]

/-- The conditional branches of a chain are drafted first, and then its else branch. -/
theorem draftStmt_ifElse (known : List NodeId) (cond : Expr) (body : List Stmt) (elseIfs : List ElseIf)
    (otherwise : Option (List Stmt))
    : draftStmt path known (.ifElse cond body elseIfs otherwise)
      = .both (fun new last => (Stmt.ifElse cond body elseIfs otherwise).rebuild (new ++ last))
          (draftBodies path known (body :: elseIfs.map ElseIf.body))
          (draftBodies path
            (known ++ (draftBodies path known (body :: elseIfs.map ElseIf.body)).outline.ids)
            otherwise.toList) := by
  rw [draftStmt_of_closed rfl rfl, Stmt.bodies, ← List.cons_append, draftBodies_append]
  rfl

theorem exists_draftBodies_cons (known : List NodeId) (body : List Stmt) (elseIfs : List ElseIf)
    : ∃ first new, (draftBodies path known (body :: elseIfs.map ElseIf.body)).value = first :: new
        ∧ new.length = elseIfs.length := by
  have lengths := length_draftBodies path known (body :: elseIfs.map ElseIf.body)
  rw [List.length_cons, List.length_map] at lengths
  obtain ⟨first, new, form⟩ := List.exists_cons_of_length_eq_add_one lengths
  exact ⟨first, new, form, by simpa [form] using lengths⟩

/-- A chain that ends here ends here after binding. -/
theorem flattenIf_draftStmt_of_ends (known : List NodeId) (cond : Expr) (body : List Stmt)
    (elseIfs : List ElseIf) {otherwise : Option (List Stmt)}
    (ends : Stmt.chained otherwise = ([], otherwise))
    : (draftStmt path known (.ifElse cond body elseIfs otherwise)).value.flattenIf
      = (draftStmt path known (.ifElse cond body elseIfs otherwise)).value := by
  let known' := known ++ (draftBodies path known (body :: elseIfs.map ElseIf.body)).outline.ids
  obtain ⟨first, new, branches, lengths⟩ := @exists_draftBodies_cons path known body elseIfs
  have ended : Stmt.chained (draftBodies path known' otherwise.toList).value.head?
      = ([], (draftBodies path known' otherwise.toList).value.head?) := by
    have after := @chained_draftBody path known' _ ends
    rwa [draftBody_eq] at after
  rw [draftStmt_ifElse, Drafted.both, branches, List.cons_append,
    rebuild_ifElse cond body first otherwise lengths, Stmt.flattenIf, ended, List.append_nil]

/-- The branches of a chain that goes on are drafted right after those before. -/
theorem draftStmt_chained (known : List NodeId) (cond cond' : Expr) (body body' : List Stmt)
    (elseIfs elseIfs' : List ElseIf) (last : Option (List Stmt))
    : draftStmt path known (.ifElse cond body (elseIfs ++ ⟨cond', body'⟩ :: elseIfs') last)
      = (draftStmt path known
          (.ifElse cond body elseIfs (some [.ifElse cond' body' elseIfs' last]))).map Stmt.flattenIf := by
  let joined := Stmt.ifElse cond body (elseIfs ++ ⟨cond', body'⟩ :: elseIfs') last
  let second := Stmt.ifElse cond' body' elseIfs' last
  let known' := known ++ (draftBodies path known (body :: elseIfs.map ElseIf.body)).outline.ids
  have apart : draftBodies path known' [[second]]
      = (draftBodies path known' second.bodies).map fun new => [[second.rebuild new]] := by
    rw [draftBodies_singleton, draftStmts, draftStmts, draftStmt_of_closed rfl rfl]
    simp [Drafted.both, Drafted.map]
  have together : draftStmt path known joined
      = .both (fun new more => joined.rebuild (new ++ more))
          (draftBodies path known (body :: elseIfs.map ElseIf.body))
          (draftBodies path known' second.bodies) := by
    have bodies : joined.bodies = (body :: elseIfs.map ElseIf.body) ++ second.bodies := by
      simp [joined, second, Stmt.bodies]
    rw [draftStmt_of_closed rfl rfl, bodies, draftBodies_append]
    rfl
  obtain ⟨first, new, branches, lengths⟩ := @exists_draftBodies_cons path known body elseIfs
  obtain ⟨first', more, branches'⟩ :=
    List.exists_cons_of_length_eq_add_one (length_draftBodies path known' second.bodies)
  have dealt : (elseIfs ++ ⟨cond', body'⟩ :: elseIfs').zipWith ElseIf.withBody (new ++ first' :: more)
      = elseIfs.zipWith ElseIf.withBody new
        ++ (⟨cond', body'⟩ :: elseIfs').zipWith ElseIf.withBody (first' :: more) :=
    List.zipWith_append lengths.symm
  rw [together, draftStmt_ifElse, Option.toList_some, apart, Drafted.both, Drafted.both, Drafted.map,
    Drafted.map, branches, branches', List.cons_append, List.cons_append,
    rebuild_ifElse cond body first _ lengths]
  simp [joined, second, Stmt.rebuild, Stmt.flattenIf, Stmt.chained, dealt, ← lengths, ElseIf.withBody]

/-- Binding commutes with joining chains. -/
theorem draftStmt_flattenIf (known : List NodeId) (s : Stmt)
    : draftStmt path known s.flattenIf = (draftStmt path known s).map Stmt.flattenIf := by
  have unchanged (same : s.flattenIf = s)
      (same' : (draftStmt path known s).value.flattenIf = (draftStmt path known s).value)
      : draftStmt path known s.flattenIf = (draftStmt path known s).map Stmt.flattenIf := by
    rw [same, Drafted.map, same']
  by_cases kind : s.isIf
  · cases s <;> simp [Stmt.isIf] at kind
    rename_i cond body elseIfs otherwise
    rcases Stmt.chained_cases otherwise with ends | ⟨cond', body', elseIfs', last, rfl, _⟩
    · exact unchanged (by simp [Stmt.flattenIf, ends]) (flattenIf_draftStmt_of_ends known cond body _ ends)
    · exact draftStmt_chained known cond cond' body body' elseIfs elseIfs' last
  · have other : s.isIf = false := by simpa using kind
    exact unchanged (Stmt.flattenIf_of_not_isIf other)
      (Stmt.flattenIf_of_not_isIf ((isIf_draftStmt known s).trans other))

end

-- Nodes

def MethodNode.stripped (m : MethodNode) : MethodNode := { m with params := [], fingerprint := "" }

def FunctionNode.stripped (f : FunctionNode) : FunctionNode := { f with params := [], fingerprint := "" }

def MethodNode.flattened (m : MethodNode) : MethodNode :=
  { m.stripped with body := m.body.map (List.map Stmt.flattened) }

def FunctionNode.flattened (f : FunctionNode) : FunctionNode :=
  { f.stripped with body := f.body.map Stmt.flattened }

namespace Node

def stripped : Node → Node
  | method m => .method m.stripped
  | function f => .function f.stripped
  | n => n

def flattened : Node → Node
  | method m => .method m.flattened
  | function f => .function f.flattened
  | n => n

theorem id_stripped (n : Node) : n.stripped.id = n.id := by cases n <;> rfl

theorem seeing_flattened : Seeing flattened (fun t => t) fun n => n := by
  constructor <;> intro n <;> cases n <;> rfl

end Node

namespace Binding

variable {path : String} {f : Stmt → Stmt}

theorem memberIds_rewrite (typeName : String) (members : List Member)
    : memberIds typeName (members.map (Member.rewrite f)) = memberIds typeName members := by
  refine memberIds_map (fun m => ?_) (fun _ _ m => by cases m <;> rfl) members
  cases m with
  | method d => simp [Member.rewrite, memberId?, MethodDecl.rewrite_eq]
  | property d => simp [Member.rewrite, memberId?, PropertyDecl.rewrite_eq]
  | constant d => rfl

theorem constantNames_rewrite (members : List Member)
    : constantNames (members.map (Member.rewrite f)) = constantNames members := by
  refine constantNames_map (fun m => ?_) members
  cases m with
  | constant d => cases d; rfl
  | _ => rfl

/-- The node of a type does not tell what is in its members. -/
theorem classNode_rewrite (d : ClassDecl) : classNode path (d.rewrite f) = classNode path d := by
  simp [classNode, ClassDecl.rewrite_eq, memberIds_rewrite, constantNames_rewrite]

theorem interfaceNode_rewrite (d : InterfaceDecl)
    : interfaceNode path (d.rewrite f) = interfaceNode path d := by
  simp [interfaceNode, InterfaceDecl.rewrite_eq, memberIds_rewrite, constantNames_rewrite]

theorem propertyNode_rewrite (scope : TypeScope) (d : PropertyDecl)
    : propertyNode path scope (d.rewrite f) = propertyNode path scope d := by
  simp [propertyNode, PropertyDecl.rewrite_eq]

theorem parameterTypes_rewrite (scope : Option TypeScope) (params : List Param)
    : parameterTypes scope (params.map (Param.rewrite f)) = parameterTypes scope params := by
  rw [parameterTypes, parameterTypes, List.filterMap_map]
  have hints : Param.typeHint ∘ Param.rewrite f = Param.typeHint :=
    funext fun p => by simp [Param.rewrite_eq]
  rw [hints]

/-- A callable with a flattened body becomes the same node, up to what tells how it was written. -/
theorem methodNode_flattened (scope : TypeScope) (d : MethodDecl) {body body' : Option (List Stmt)}
    (flat : body' = body.map (List.map Stmt.flattened))
    : (Node.method { methodNode path scope (d.rewrite Stmt.flattenIf) with body := body' }).stripped
      = (Node.method { methodNode path scope d with body }).flattened := by
  simp [flat, methodNode, Node.stripped, Node.flattened, MethodNode.stripped, MethodNode.flattened,
    MethodDecl.rewrite_eq, parameterTypes_rewrite]

theorem functionNode_flattened (d : FunctionDecl) {body body' : List Stmt}
    (flat : body' = body.map Stmt.flattened)
    : (Node.function { functionNode path (d.rewrite Stmt.flattenIf) with body := body' }).stripped
      = (Node.function { functionNode path d with body }).flattened := by
  simp [flat, functionNode, Node.stripped, Node.flattened, FunctionNode.stripped,
    FunctionNode.flattened, FunctionDecl.rewrite_eq, parameterTypes_rewrite]

end Binding

-- Drafts

abbrev Drafted.Flattens {α β : Type} (flat keep : α → β) (d d' : Drafted α) : Prop :=
  d.Alike Node.flattened Node.stripped flat keep d'

section

open Drafted (Flattens)

variable {path : String}

def DraftsFlat (path : String) (s : Stmt) : Prop :=
  ∀ s', s.flattened = id s'
    → ∀ known, Flattens Stmt.flattened id (draftStmt path known s) (draftStmt path known s')

theorem flattens_draftMember (scope : Binding.TypeScope) {m : Member}
    (each : ∀ s ∈ m.statements, DraftsFlat path s) (known : List NodeId)
    : Flattens id id (draftMember path scope known m)
        (draftMember path scope known (m.rewrite Stmt.flattenIf)) := by
  cases m with
  | method d =>
    have name : (d.rewrite Stmt.flattenIf).name = d.name := by rw [MethodDecl.rewrite_eq]
    have body : d.body.map (List.map Stmt.flattened)
        = (d.rewrite Stmt.flattenIf).body.map (List.map id) := by
      rw [MethodDecl.rewrite_eq]
      show _ = (d.body.map (List.map Stmt.flattened)).map (List.map id)
      simp
    have inner := Drafted.Alike.body Node.seeing_flattened.id Node.id_stripped body each
      (known ++ [.method scope.name d.name])
    rw [Member.rewrite, draftMember, draftMember, name]
    exact .declare rfl rfl (Binding.methodNode_flattened scope d (by simpa using inner.value.symm)).symm
      inner
  | property d =>
    have nothing : Flattens id id ({ value := () } : Drafted Unit) { value := () } := ⟨rfl, rfl, rfl⟩
    have node := @Binding.propertyNode_rewrite path Stmt.flattenIf scope d
    rw [Member.rewrite, draftMember, draftMember]
    rw [PropertyDecl.rewrite_eq] at node ⊢
    exact .declare rfl rfl (congrArg Node.property node).symm nothing
  | constant d =>
    rw [Member.rewrite, draftMember, draftMember]
    exact ⟨rfl, rfl, rfl⟩

theorem flattens_draftMembers (scope : Binding.TypeScope) {members : List Member}
    (each : ∀ m ∈ members, ∀ s ∈ m.statements, DraftsFlat path s) (known : List NodeId)
    : Flattens id id (draftMembers path scope known members)
        (draftMembers path scope known (members.map (Member.rewrite Stmt.flattenIf))) := by
  refine .members Node.seeing_flattened.id Node.id_stripped (List.map_id _).symm
    (fun m member m' flat known => ?_) known
  obtain rfl : m.rewrite Stmt.flattenIf = m' := flat
  exact flattens_draftMember scope (each m member) known

/-- What opens a namespace is no callable. -/
theorem stripped_opening (s : Stmt)
    : (s.opening path).nodes.map Node.stripped = (s.opening path).nodes.map Node.flattened := by
  unfold Stmt.opening
  split
  · split <;> rfl
  · rfl

/-- The draft of a flattened statement is its draft, flattened, by induction on the bodies in it. -/
theorem draftsFlat (s : Stmt) : DraftsFlat path s := by
  induction s using Stmt.bodyInduction with
  | classDecl d ih =>
    rintro s' (rfl : _ = s') known
    have members := flattens_draftMembers ⟨d.name, d.parent⟩ ih (known ++ [.classType d.name])
    have node := @Binding.classNode_rewrite path Stmt.flattenIf d
    have form : (Stmt.classDecl d).flattened = .classDecl (d.rewrite Stmt.flattenIf) := rfl
    rw [form, draftStmt, draftStmt, node, ClassDecl.rewrite_eq]
    exact .declare (by rw [form, ClassDecl.rewrite_eq]; rfl) rfl rfl members
  | interfaceDecl d ih =>
    rintro s' (rfl : _ = s') known
    have members := flattens_draftMembers ⟨d.name, none⟩ ih (known ++ [.interfaceType d.name])
    have node := @Binding.interfaceNode_rewrite path Stmt.flattenIf d
    have form : (Stmt.interfaceDecl d).flattened = .interfaceDecl (d.rewrite Stmt.flattenIf) := rfl
    rw [form, draftStmt, draftStmt, node, InterfaceDecl.rewrite_eq]
    exact .declare (by rw [form, InterfaceDecl.rewrite_eq]; rfl) rfl rfl members
  | functionDecl d ih =>
    rintro s' (rfl : _ = s') known
    have form : (Stmt.functionDecl d).flattened = .functionDecl (d.rewrite Stmt.flattenIf) := rfl
    have name : (d.rewrite Stmt.flattenIf).name = d.name := by rw [FunctionDecl.rewrite_eq]
    have body : d.body.map Stmt.flattened = (d.rewrite Stmt.flattenIf).body.map id := by
      rw [FunctionDecl.rewrite_eq]
      simp [Stmt.flattened]
    have inner := Drafted.Alike.stmts Node.seeing_flattened.id Node.id_stripped body ih
      (known ++ [.function d.name])
    rw [form, draftStmt, draftStmt, name]
    exact .declare form rfl
      (Binding.functionNode_flattened d (by simpa using inner.value.symm)).symm inner
  | other s kind ih =>
    rintro s' (rfl : _ = s') known
    have opened : (s.inner Stmt.flattenIf).opening path = s.opening path := by
      cases s with
      | inNamespace d =>
        obtain ⟨name, body, span⟩ := d
        cases name <;> rfl
      | _ => rfl
    have bodies : s.bodies.map (List.map Stmt.flattened)
        = (s.inner Stmt.flattenIf).bodies.map (List.map id) := by
      rw [Stmt.bodies_inner]
      simp [Stmt.flattened]
    have inner := Drafted.Alike.bodies Node.seeing_flattened.id Node.id_stripped bodies ih
      (known ++ (s.opening path).ids)
    have around : Flattens id id (⟨(), s.opening path, []⟩ : Drafted Unit) ⟨(), s.opening path, []⟩ :=
      ⟨rfl, (stripped_opening s).symm, rfl⟩
    have form : s.flattened = (s.inner Stmt.flattenIf).flattenIf := rfl
    rw [form, draftStmt_flattenIf, draftStmt_of_other kind, draftStmt_of_other (by simpa using kind),
      opened]
    have new := inner.value
    rw [List.map_id_fun, List.map_id] at new
    have inside : Flattens (Stmt.inner Stmt.flattenIf) id
        (.both (fun _ new => s.rebuild new) ⟨(), s.opening path, []⟩ _)
        (.both (fun _ new => (s.inner Stmt.flattenIf).rebuild new) ⟨(), s.opening path, []⟩ _) :=
      around.both inner (by rw [← new, Stmt.inner_rebuild]; rfl)
    exact ⟨congrArg Stmt.flattenIf inside.value, inside.nodes, inside.shadowed⟩

end

-- Files

abbrev CompilationUnit.flattened (u : CompilationUnit) : CompilationUnit := u.seen Stmt.flattened

abbrev Registry.Reshaped (r r' : Registry) : Prop := r.TidyAlike Node.flattened r'

theorem SourceFile.flattens_draft (file : SourceFile) (known : List NodeId)
    : (file.draft known).Flattens (List.map Stmt.flattened) (List.map id)
        (file.flattened.draft known) := by
  have body : file.statements.map Stmt.flattened = file.flattened.statements.map id := by
    rw [List.map_id]
    exact (Stmt.rewriteAll_eq _).symm
  exact .stmts Node.seeing_flattened.id Node.id_stripped body (fun s _ => draftsFlat s) known

/-- Files that differ in the nesting of chains are bound alike, one after the other. -/
theorem Registry.Reshaped.bindAll {files files' : List (SourceFile × String)} {r r' : Registry}
    (h : r.Reshaped r') (same : files.map (·.1.flattened) = files'.map (·.1.flattened))
    : (bindAll r files).2.Reshaped (bindAll r' files').2
      ∧ (DesignMetrics.bindAll r files).1.map CompilationUnit.flattened
        = (DesignMetrics.bindAll r' files').1.map CompilationUnit.flattened := by
  refine TidyAlike.bindAll Node.seeing_flattened.id (fun file file' here => ?_) h same
  refine ⟨(SourceFile.mk.inj here).1, fun known => ?_⟩
  have drafts := file.flattens_draft known
  have drafts' := file'.flattens_draft known
  rw [here] at drafts
  exact ⟨drafts.value.trans drafts'.value.symm, drafts.nodes.trans drafts'.nodes.symm,
    drafts.shadowed.trans drafts'.shadowed.symm⟩

end DesignMetrics
