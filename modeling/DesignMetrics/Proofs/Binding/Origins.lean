import DesignMetrics.Proofs.Binding.Assembly

/-! Where nodes come from.
Every node of a draft stands for a declaration in the source. This holds of any source, also of one that
has markers already.
-/

namespace DesignMetrics

variable {n : Node} {owner : Option String}

namespace Outline

/-- Whether the nodes of an outline stand for declarations in sources, and are new after `known`. -/
inductive New (source : String → Part → Prop) : List NodeId → Outline → Prop
  | done {known : List NodeId} : New source known .done
  | entry {known : List NodeId} {node : Node} {inside after : Outline}
      (origin : ∃ path p, source path p ∧ Stands path p node)
      (fresh : node.isSpace ∨ ¬ Taken known node.id)
      (owned : ∀ n ∈ inside.roots, n.owner? = node.scope?)
      (inner : New source (known ++ [node.id]) inside)
      (rest : New source (known ++ node.id :: inside.ids) after)
    : New source known (.entry node inside after)

variable {source : String → Part → Prop} {known : List NodeId} {o next : Outline}

theorem New.append (first : o.New source known) (second : next.New source (known ++ o.ids))
    : (o ++ next).New source known := by
  induction first with
  | done => simpa using second
  | entry origin fresh owned inner rest _ ih =>
    exact .entry origin fresh owned inner (ih (by simpa using second))

theorem New.origin_of_mem (h : o.New source known) (member : n ∈ o.nodes)
    : ∃ path p, source path p ∧ Stands path p n := by
  induction h with
  | done => simp at member
  | entry origin _ _ _ _ inside_ih after_ih =>
    rw [nodes_entry, List.mem_cons, List.mem_append] at member
    rcases member with rfl | inside | after
    · exact origin
    · exact inside_ih inside
    · exact after_ih after

/-- Only namespaces may have been there before. -/
theorem New.fresh_of_mem (h : o.New source known) (member : n ∈ o.nodes)
    : n.isSpace ∨ ¬ Taken known n.id := by
  induction h with
  | done => simp at member
  | entry _ fresh _ _ _ inside_ih after_ih =>
    rw [nodes_entry, List.mem_cons, List.mem_append] at member
    rcases member with rfl | inside | after
    · exact fresh
    · exact (inside_ih inside).imp_right fun new taken => new (taken_append.mpr (.inl taken))
    · exact (after_ih after).imp_right fun new taken => new (taken_append.mpr (.inl taken))

/-- An identifier that is known is not declared again, unless it is one of a namespace. -/
theorem New.notMem_ids (h : o.New source known) {key : String} {kind : NodeKind}
    (there : .ofKey key kind ∈ known) (other : kind ≠ .space) : .ofKey key kind ∉ o.ids := by
  intro member
  obtain ⟨n, inside, same⟩ := List.mem_map.mp member
  obtain ⟨path, p, _, stands⟩ := h.origin_of_mem inside
  obtain ⟨key', named⟩ := stands.id_eq
  rcases h.fresh_of_mem inside with space | new
  · rw [same, NodeId.ofKey_inj] at named
    exact other (named.1.trans (Node.isSpace_iff.mp space))
  · exact new (same ▸ taken_of_mem there)

/-- A member that is declared in something is declared in the type that it belongs to. -/
theorem New.exists_owner (h : o.New source known) (member : n ∈ o.nodes) {owner : String}
    (owned : n.owner? = some owner)
    : n ∈ o.roots ∨ ∃ t, .type t ∈ o.nodes ∧ t.qualifiedName = owner := by
  induction h with
  | done => simp at member
  | @entry _ node inside after _ _ belongs _ _ inside_ih after_ih =>
    rw [nodes_entry, List.mem_cons, List.mem_append] at member
    simp only [nodes_entry, roots_entry, List.mem_cons, List.mem_append]
    rcases member with rfl | within | later
    · exact .inl (.inl rfl)
    · right
      rcases inside_ih within with root | ⟨t, there, same⟩
      · have scope := belongs n root
        rw [owned] at scope
        cases node with
        | type t => exact ⟨t, .inl rfl, by simpa [Node.scope?] using scope.symm⟩
        | _ => simp [Node.scope?] at scope
      · exact ⟨t, .inr (.inl there), same⟩
    · rcases after_ih later with root | ⟨t, there, same⟩
      · exact .inl (.inr root)
      · exact .inr ⟨t, .inr (.inr there), same⟩

/-- What holds of an outline whose direct declarations belong to `owner`. -/
structure NewIn (source : String → Part → Prop) (owner : Option String) (known : List NodeId)
    (o : Outline) : Prop where
  new : o.New source known
  owned : ∀ n ∈ o.roots, n.owner? = owner

theorem NewIn.done : NewIn source owner known .done := ⟨.done, by simp⟩

theorem NewIn.append (first : NewIn source owner known o)
    (second : NewIn source owner (known ++ o.ids) next) : NewIn source owner known (o ++ next) where
  new := first.new.append second.new
  owned n member := by
    rw [roots_append, List.mem_append] at member
    exact member.elim (first.owned n) (second.owned n)

/-- Where no member stands outside its type, every member has its type with it. -/
theorem NewIn.exists_owner (h : NewIn source none known o) (member : n ∈ o.nodes) {owner : String}
    (owned : n.owner? = some owner) : ∃ t, .type t ∈ o.nodes ∧ t.qualifiedName = owner := by
  refine (h.new.exists_owner member owned).resolve_left fun root => ?_
  have outer := h.owned n root
  rw [owned] at outer
  contradiction

end Outline

variable {known : List NodeId}

namespace Drafted

section

variable {α β : Type} {id : NodeId} {bare bound : β} {node : α → Node} {inside : Drafted α}

theorem outline_declare_of_taken (taken : Taken known id)
    : (declare known id bare bound node inside).outline = .done := by
  rw [declare, if_pos taken]

theorem outline_declare_of_new (new : ¬ Taken known id)
    : (declare known id bare bound node inside).outline
      = .entry (node inside.value) inside.outline .done := by
  rw [declare, if_neg new]

end

end Drafted

section

variable {source : String → Part → Prop} {path : String}

/-- A declaration is new if it is drafted at all. -/
theorem newIn_declare {α β : Type} {id : NodeId} {bare bound : β} {node : α → Node}
    {inside : Drafted α} (named : ∀ a, (node a).id = id)
    (belongs : (node inside.value).owner? = owner)
    (origin : ∃ path p, source path p ∧ Stands path p (node inside.value))
    (inner : inside.outline.NewIn source (node inside.value).scope? (known ++ [id]))
    : (Drafted.declare known id bare bound node inside).outline.NewIn source owner known := by
  by_cases taken : Taken known id
  · rw [Drafted.outline_declare_of_taken taken]
    exact .done
  · rw [Drafted.outline_declare_of_new taken]
    refine ⟨.entry origin (.inr ?_) inner.owned ?_ .done, by simpa using belongs⟩
    · rw [named]
      exact taken
    · rw [named]
      exact inner.new

/-- Opening a namespace declares nothing else. -/
theorem Stmt.isSpace_of_mem_opening {s : Stmt} {n : Node} (h : n ∈ (s.opening path).nodes)
    : n.isSpace := by
  unfold opening at h
  split at h
  · split at h <;> simp at h
    rw [h]
    rfl
  · simp at h

theorem newIn_opening {s : Stmt} (here : source path (.stmt s))
    : (s.opening path).NewIn source none known := by
  unfold Stmt.opening
  split
  · rename_i name body span
    split
    · exact .done
    · rename_i named
      have isOpen : name.isEmpty = false := by simpa using named
      exact ⟨.entry ⟨path, _, here, .space _ rfl isOpen⟩ (.inl rfl) (by simp) .done .done,
        by simp [Node.owner?]⟩
  · exact .done

/-- A draft is new and all that it declares outside of types belongs to its owner, by induction on how
it is assembled. -/
theorem Assembled.newIn {nest : Nest} {α : Type} {d : List NodeId → Drafted α}
    (h : Assembled source owner nest d) (known : List NodeId)
    : (d known).outline.NewIn source owner known := by
  induction h generalizing known with
  | nothing => exact .done
  | opening here => exact newIn_opening here
  | map f _ ih => exact ih known
  | both f _ _ left right => exact (left known).append (right _)
  | type here stands declares _ _ _ inner =>
    refine newIn_declare (fun _ => rfl) rfl ⟨_, _, here, stands⟩ ?_
    rw [Node.scope?, ← (stands.scope_name declares).1]
    exact inner _
  | callable same origin _ inner =>
    refine newIn_declare (fun a => (same a).1) (same _).2.2.1 (origin _) ?_
    rw [(same _).2.2.2]
    exact inner _

theorem assembled_anywhere (s : Stmt)
    : Assembled (fun _ _ => True) none s.nest fun known => draftStmt path known s :=
  assembled_draftStmt s fun _ _ => trivial

theorem new_draftStmts (known : List NodeId) (body : List Stmt)
    : (draftStmts path known body).outline.New (fun _ _ => True) known :=
  ((assembled_draftStmts fun s _ => assembled_anywhere s).newIn known).new

theorem new_draftBody (known : List NodeId) (body : Option (List Stmt))
    : (draftBody path known body).outline.New (fun _ _ => True) known :=
  ((assembled_draftBody fun s _ => assembled_anywhere s).newIn known).new

theorem new_draftMembers {scope : Binding.TypeScope} (members : List Member) (known : List NodeId)
    : (draftMembers path scope known members).outline.New (fun _ _ => True) known := by
  let owner : Stmt := .classDecl ⟨scope.name, .none, scope.parent, [], members, ⟨0, 0⟩⟩
  have declares : (Part.stmt owner).scope? = some (scope, members) := rfl
  exact ((assembled_draftMembers trivial declares (List.Subset.refl _) fun _ _ s _ =>
    assembled_anywhere s).newIn known).new

end

end DesignMetrics
