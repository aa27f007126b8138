import DesignMetrics.Proofs.Binding.FirstWins
import DesignMetrics.Proofs.Registry.Agreement

/-! Sources that are bound alike.
Where statements that are seen alike are drafted alike, so are lists of them, and binding file after
file gives nodes and units that are seen alike.
-/

namespace DesignMetrics

/-- Whether two drafts are the same as far as their values and nodes are seen. -/
structure Drafted.Alike {α β γ : Type} (see see' : Node → Node) (view : α → γ) (view' : β → γ)
    (d : Drafted α) (d' : Drafted β) : Prop where
  value : view d.value = view' d'.value
  nodes : d.outline.nodes.map see = d'.outline.nodes.map see'
  shadowed : d.shadowed = d'.shadowed

namespace Drafted.Alike

variable {α α' β β' γ γ' δ ε ζ : Type} {see see' : Node → Node} {view' : γ' → ζ} {view : γ → ζ}
  {left' : α' → δ} {left : α → δ}

theorem both {right : β → ε} {right' : β' → ε} {first : Drafted α} {first' : Drafted α'}
    {rest : Drafted β} {rest' : Drafted β'} {f : α → β → γ} {f' : α' → β' → γ'}
    (one : Alike see see' left left' first first') (two : Alike see see' right right' rest rest')
    (joined : view (f first.value rest.value) = view' (f' first'.value rest'.value))
    : Alike see see' view view' (.both f first rest) (.both f' first' rest') where
  value := joined
  nodes := by simp [Drafted.both, one.nodes, two.nodes]
  shadowed := by simp [Drafted.both, one.shadowed, two.shadowed]

theorem map {d : Drafted α} {d' : Drafted α'} {f : α → γ} {f' : α' → γ'}
    (h : Alike see see' left left' d d') (mapped : view (f d.value) = view' (f' d'.value))
    : Alike see see' view view' (d.map f) (d'.map f') := ⟨mapped, h.nodes, h.shadowed⟩

theorem declare {known : List NodeId} {id : NodeId} {bare bound : γ} {bare' bound' : γ'}
    {node : α → Node} {node' : α' → Node} {inside : Drafted α} {inside' : Drafted α'}
    (unbound : view bare = view' bare') (marked : view bound = view' bound')
    (nodes : see (node inside.value) = see' (node' inside'.value))
    (inner : Alike see see' left left' inside inside')
    : Alike see see' view view' (.declare known id bare bound node inside)
        (.declare known id bare' bound' node' inside') := by
  unfold Drafted.declare
  split
  · exact ⟨unbound, rfl, rfl⟩
  · exact ⟨marked, by simp [nodes, inner.nodes], inner.shadowed⟩

variable (keeps : ∀ n, (see n).id = n.id) (keeps' : ∀ n, (see' n).id = n.id)

include keeps keeps'

theorem ids {d : Drafted γ} {d' : Drafted γ'} (h : Alike see see' view view' d d')
    : d.outline.ids = d'.outline.ids := by
  simpa [Outline.ids, Function.comp_def, keeps, keeps'] using congrArg (List.map Node.id) h.nodes

/-- Things that follow each other are drafted alike if each is. -/
theorem each {draft : List NodeId → α → Drafted β} {draft' : List NodeId → α' → Drafted β'}
    {key : α → δ} {key' : α' → δ} {view : β → ε} {view' : β' → ε} {items : List α} {items' : List α'}
    (same : items.map key = items'.map key')
    (alike : ∀ a ∈ items, ∀ a', key a = key' a' → ∀ known,
      Alike see see' view view' (draft known a) (draft' known a')) (known : List NodeId)
    : Alike see see' (List.map view) (List.map view') (.each draft known items)
        (.each draft' known items') := by
  induction items generalizing items' known with
  | nil =>
    obtain rfl : items' = [] := by simpa using same.symm
    exact ⟨rfl, rfl, rfl⟩
  | cons a rest ih =>
    cases items' with
    | nil => simp at same
    | cons a' rest' =>
      obtain ⟨here, later⟩ := List.cons_eq_cons.mp same
      have first := alike a (by simp) a' here known
      have others := ih later (fun b member => alike b (by simp [member]))
        (known ++ (draft known a).outline.ids)
      rw [Drafted.each, Drafted.each, ← first.ids keeps keeps']
      exact first.both others (by simp [first.value, others.value])

variable {path : String} {view view' : Stmt → δ}

theorem stmts {body body' : List Stmt} (same : body.map view = body'.map view')
    (alike : ∀ s ∈ body, ∀ s', view s = view' s' → ∀ known,
      Alike see see' view view' (draftStmt path known s) (draftStmt path known s'))
    (known : List NodeId)
    : Alike see see' (List.map view) (List.map view') (draftStmts path known body)
        (draftStmts path known body') := by
  rw [draftStmts_eq, draftStmts_eq]
  exact each keeps keeps' same alike known

theorem bodies {bodies bodies' : List (List Stmt)}
    (same : bodies.map (List.map view) = bodies'.map (List.map view'))
    (alike : ∀ body ∈ bodies, ∀ s ∈ body, ∀ s', view s = view' s' → ∀ known,
      Alike see see' view view' (draftStmt path known s) (draftStmt path known s'))
    (known : List NodeId)
    : Alike see see' (List.map (List.map view)) (List.map (List.map view'))
        (draftBodies path known bodies) (draftBodies path known bodies') := by
  rw [draftBodies_eq, draftBodies_eq]
  exact each keeps keeps' same
    (fun body member _ folds => stmts keeps keeps' folds (alike body member)) known

theorem body {body body' : Option (List Stmt)}
    (same : body.map (List.map view) = body'.map (List.map view'))
    (alike : ∀ s ∈ body.getD [], ∀ s', view s = view' s' → ∀ known,
      Alike see see' view view' (draftStmt path known s) (draftStmt path known s'))
    (known : List NodeId)
    : Alike see see' (Option.map (List.map view)) (Option.map (List.map view'))
        (draftBody path known body) (draftBody path known body') := by
  cases body with
  | none =>
    obtain rfl : body' = none := by simpa using same.symm
    rw [draftBody]
    exact ⟨rfl, rfl, rfl⟩
  | some body =>
    obtain ⟨body', rfl, folds⟩ := Option.map_eq_some_iff.mp same.symm
    have drafts := stmts keeps keeps' folds.symm alike known
    rw [draftBody, draftBody]
    exact drafts.map (congrArg some drafts.value)

theorem members {scope scope' : Binding.TypeScope} {key key' : Member → ε}
    {members members' : List Member} (same : members.map key = members'.map key')
    (alike : ∀ m ∈ members, ∀ m', key m = key' m' → ∀ known, Alike see see' id id
      (draftMember path scope known m) (draftMember path scope' known m')) (known : List NodeId)
    : Alike see see' id id (draftMembers path scope known members)
        (draftMembers path scope' known members') := by
  rw [draftMembers_eq, draftMembers_eq]
  exact (each keeps keeps' same alike known).map rfl

end Drafted.Alike

def CompilationUnit.seen (view : Stmt → Stmt) (u : CompilationUnit) : CompilationUnit :=
  { u with statements := u.statements.map view, fingerprint := "" }

/-- Tidy registries with the same nodes as far as they are seen. -/
structure Registry.TidyAlike (see : Node → Node) (r r' : Registry) : Prop where
  same : r.toList.map see = r'.toList.map see
  left : Tidy r
  right : Tidy r'

namespace Registry.TidyAlike

variable {see : Node → Node} {r r' : Registry}

theorem ids (keeps : ∀ n, (see n).id = n.id) (h : r.TidyAlike see r')
    : r.toList.map Node.id = r'.toList.map Node.id := by
  simpa [Function.comp_def, keeps] using congrArg (List.map Node.id) h.same

theorem size (h : r.TidyAlike see r') : r.size = r'.size := by
  simpa [toList, Registry.size] using congrArg List.length h.same

/-- Files that are drafted alike are bound alike, one after the other. -/
theorem bindAll {κ : Type} {view : Stmt → Stmt} {key : SourceFile → κ}
    (keeps : ∀ n, (see n).id = n.id)
    (drafts : ∀ file file', key file = key file' → file.path = file'.path ∧ ∀ known,
      (file.draft known).Alike see see (List.map view) (List.map view) (file'.draft known))
    {files files' : List (SourceFile × String)} (h : r.TidyAlike see r')
    (same : files.map (fun f => key f.1) = files'.map fun f => key f.1)
    : (bindAll r files).2.TidyAlike see (bindAll r' files').2
      ∧ (DesignMetrics.bindAll r files).1.map (CompilationUnit.seen view)
        = (DesignMetrics.bindAll r' files').1.map (CompilationUnit.seen view) := by
  induction files generalizing files' r r' with
  | nil =>
    obtain rfl : files' = [] := by simpa using same.symm
    exact ⟨h, rfl⟩
  | cons pair rest ih =>
    cases files' with
    | nil => simp at same
    | cons pair' rest' =>
      obtain ⟨file, fingerprint⟩ := pair
      obtain ⟨file', fingerprint'⟩ := pair'
      obtain ⟨here, later⟩ := List.cons_eq_cons.mp same
      obtain ⟨paths, alike⟩ := drafts file file' here
      have known := h.ids keeps
      have alike := alike (r.toList.map Node.id)
      have tidy := h.left.bind file fingerprint
      have tidy' := h.right.bind file' fingerprint'
      obtain ⟨s, ran, nodes, _⟩ := file.bind_eq h.left.tracks fingerprint
      obtain ⟨s', ran', nodes', _⟩ := file'.bind_eq h.right.tracks fingerprint'
      rw [ran] at tidy
      rw [ran'] at tidy'
      rw [← known] at ran' nodes'
      have next : s.TidyAlike see s' := by
        refine ⟨?_, tidy, tidy'⟩
        rw [nodes, nodes', map_upsertAll keeps, map_upsertAll keeps, h.same, alike.nodes]
      obtain ⟨all, units⟩ := ih next later
      simp only [DesignMetrics.bindAll, ran, ran']
      refine ⟨all, List.cons_eq_cons.mpr ⟨?_, units⟩⟩
      simp only [CompilationUnit.seen, paths, alike.value, alike.ids keeps keeps, alike.shadowed]

end Registry.TidyAlike

end DesignMetrics
