import DesignMetrics.Proofs.Binding.Origins

/-! What is true of every outline that is drafted from source without markers. -/

namespace DesignMetrics

/-- How identifiers list what is declared, and between it some that were taken before. -/
inductive Lists : List NodeId → List NodeId → Outline → Prop
  | done {known : List NodeId} : Lists known [] .done
  | own {known ids : List NodeId} {node : Node} {inside after : Outline}
    : node.isSpace = false → Lists (known ++ node.id :: inside.ids) ids after
      → Lists known (node.id :: ids) (.entry node inside after)
  | space {known ids : List NodeId} {node : Node} {inside after : Outline}
    : node.isSpace → Lists (known ++ node.id :: inside.ids) ids after
      → Lists known ids (.entry node inside after)
  | foreign {known ids : List NodeId} {id : NodeId} {o : Outline}
    : Taken known id → Lists known ids o → Lists known (id :: ids) o

variable {known : List NodeId}

namespace Outline

def markers (o : Outline) : List NodeId := (o.roots.filter fun n => !n.isSpace).map Node.id

@[simp] theorem markers_done : done.markers = [] := rfl

@[simp] theorem markers_append (o next : Outline)
    : (o ++ next).markers = o.markers ++ next.markers := by
  simp [markers]

/-- The direct declarations of an outline are a list of it. -/
theorem lists_markers (known : List NodeId) (o : Outline) : Lists known o.markers o := by
  induction o generalizing known with
  | done => exact .done
  | entry node inside after _ ih =>
    cases kind : node.isSpace with
    | true => simpa [markers, kind] using Lists.space kind (ih _)
    | false => simpa [markers, kind] using Lists.own kind (ih _)

/-- How a node refers to what is declared inside it. -/
structure Shaped (known : List NodeId) (inside : Outline) (node : Node) : Prop where
  lists : Lists (known ++ [node.id]) node.links inside
  direct : node.type? = none → node.links = inside.markers
  owned : ∀ n ∈ inside.roots, n.owner? = node.scope?
  leaf : node.isSpace → inside = .done

/-- Whether an outline may come after the identifiers `known`. -/
inductive Formed (source : String → Part → Prop) : List NodeId → Outline → Prop
  | done {known : List NodeId} : Formed source known .done
  | entry {known : List NodeId} {node : Node} {inside after : Outline}
      (origin : ∃ path p, source path p ∧ Stands path p node)
      (fresh : node.isSpace ∨ ¬ Taken known node.id)
      (shape : Shaped known inside node)
      (inner : Formed source (known ++ [node.id]) inside)
      (rest : Formed source (known ++ node.id :: inside.ids) after)
    : Formed source known (.entry node inside after)

variable {source : String → Part → Prop}

variable {o : Outline}

theorem Formed.append {next : Outline} (first : o.Formed source known)
    (second : next.Formed source (known ++ o.ids)) : (o ++ next).Formed source known := by
  induction first with
  | done => simpa using second
  | entry origin fresh shape inner rest _ ih =>
    exact .entry origin fresh shape inner (ih (by simpa using second))

/-- A formed outline is new. -/
theorem Formed.new (h : o.Formed source known) : o.New source known := by
  induction h with
  | done => exact .done
  | entry origin fresh shape _ _ inside_ih after_ih =>
    exact .entry origin fresh shape.owned inside_ih after_ih

variable {n : Node}

theorem Formed.origin_of_mem (h : o.Formed source known) (member : n ∈ o.nodes)
    : ∃ path p, source path p ∧ Stands path p n :=
  h.new.origin_of_mem member

theorem Formed.fresh_of_mem (h : o.Formed source known) (member : n ∈ o.nodes)
    : n.isSpace ∨ ¬ Taken known n.id :=
  h.new.fresh_of_mem member

/-- What holds of an outline of statements in which `markers` are left. -/
structure Marks (source : String → Part → Prop) (known markers : List NodeId) (o : Outline)
    : Prop where
  formed : o.Formed source known
  bodies : ∀ n ∈ o.roots, n.owner? = none
  marks : markers = o.markers

theorem Marks.done : Marks source known [] .done :=
  ⟨.done, by simp, rfl⟩

/-- A node with the outlined statements as its body has the right shape. -/
theorem Marks.shaped {markers : List NodeId} (h : Marks source (known ++ [n.id]) markers o)
    (holds : n.links = markers) (bare : n.scope? = none) (other : n.isSpace = false)
    : Shaped known o n where
  lists := by
    rw [holds, h.marks]
    exact lists_markers _ o
  direct _ := holds.trans h.marks
  owned := by
    rw [bare]
    exact h.bodies
  leaf := by simp [other]

theorem Marks.append {left right : List NodeId} {next : Outline} (first : Marks source known left o)
    (second : Marks source (known ++ o.ids) right next)
    : Marks source known (left ++ right) (o ++ next) where
  formed := first.formed.append second.formed
  bodies n member := by
    rw [roots_append, List.mem_append] at member
    exact member.elim (first.bodies n) (second.bodies n)
  marks := by rw [first.marks, second.marks, markers_append]

end Outline

variable {id : NodeId}

/-- A declaration leaves a marker if its identifier is new, and none if it is taken. -/
theorem marks_declare {source : String → Part → Prop} {α : Type} {bare bound : Stmt}
    {node : α → Node} {inside : Drafted α} (named : ∀ a, (node a).id = id)
    (top : ∀ a, (node a).owner? = none ∧ (node a).isSpace = false)
    (origin : ∃ path p, source path p ∧ Stands path p (node inside.value))
    (shape : Outline.Shaped known inside.outline (node inside.value))
    (inner : inside.outline.Formed source (known ++ [id]))
    (unmarked : (Part.stmt bare).markers = []) (marked : (Part.stmt bound).markers = [id])
    : Outline.Marks source known
        (Part.stmt (Drafted.declare known id bare bound node inside).value).markers
        (Drafted.declare known id bare bound node inside).outline := by
  unfold Drafted.declare
  split
  · rw [unmarked]
    exact .done
  · rename_i new
    refine ⟨.entry origin (.inr ?_) shape ?_ .done, ?_, ?_⟩
    · rw [named]
      exact new
    · rw [named]
      exact inner
    · intro n member
      simp only [Outline.roots_entry, Outline.roots_done, List.mem_singleton] at member
      subst member
      exact (top _).1
    · simp [marked, Outline.markers, top, named]

variable {m : Member}

namespace Binding

variable {typeName : String}

/-- The identifier of a member names its type. -/
theorem memberId?_cases (h : memberId? typeName m = some id)
    : (∃ name, id = .method typeName name) ∨ ∃ name, id = .property typeName name := by
  cases m with
  | method d => exact .inl ⟨d.name, by simpa [memberId?] using h.symm⟩
  | property d => exact .inr ⟨d.name, by simpa [memberId?] using h.symm⟩
  | constant => simp [memberId?] at h

def NamesMember (typeName : String) (id : NodeId) : Prop := ∃ m, memberId? typeName m = some id

/-- Without colons in the names of types, an identifier is one of members of one type only. -/
theorem NamesMember.name_eq {typeName' : String} (left : NamesMember typeName id)
    (right : NamesMember typeName' id) (bare : ':' ∉ typeName.toList) (bare' : ':' ∉ typeName'.toList)
    : typeName = typeName' := by
  obtain ⟨m, own⟩ := left
  obtain ⟨m', own'⟩ := right
  rcases memberId?_cases own with ⟨name, rfl⟩ | ⟨name, rfl⟩ <;>
    rcases memberId?_cases own' with ⟨name', same⟩ | ⟨name', same⟩
  · exact ((NodeId.method_inj bare bare').mp same).1
  · exact absurd (NodeId.ofKey_inj.mp same).1 (by simp)
  · exact absurd (NodeId.ofKey_inj.mp same).1 (by simp)
  · exact ((NodeId.property_inj bare bare').mp same).1

/-- Members with identifiers that are alike belong to types whose names differ in case at most. -/
theorem NamesMember.lower_eq {typeName' : String} {other : NodeId} (left : NamesMember typeName id)
    (right : NamesMember typeName' other) (bare : ':' ∉ typeName.toList)
    (bare' : ':' ∉ typeName'.toList) (alike : id.Alike other)
    : Text.lower typeName = Text.lower typeName' := by
  obtain ⟨m, own⟩ := left
  obtain ⟨m', own'⟩ := right
  rcases memberId?_cases own with ⟨name, rfl⟩ | ⟨name, rfl⟩ <;>
    rcases memberId?_cases own' with ⟨name', rfl⟩ | ⟨name', rfl⟩
  · exact NodeId.lower_eq_of_method_alike bare bare' alike
  · exact absurd alike.kind_eq (by simp)
  · exact absurd alike.kind_eq (by simp)
  · rw [NodeId.eq_of_property_alike bare bare' alike]

/-- The test for repetition asks whether an identifier of an earlier member is alike. -/
theorem isRepeated_iff {seen : List NodeId} (own : memberId? typeName m = some id)
    (members : ∀ s ∈ seen, NamesMember typeName s) : isRepeated seen id m ↔ Taken seen id := by
  have step {test : NodeId → Prop} (same : ∀ s ∈ seen, test s ↔ s.Alike id)
      : (∃ s ∈ seen, test s) ↔ Taken seen id :=
    exists_congr fun s => and_congr_right (same s)
  cases m with
  | method d =>
    simp only [isRepeated, List.any_eq_true]
    apply step
    intro s member
    obtain rfl : id = .method typeName d.name := by simpa [memberId?] using own.symm
    obtain ⟨other, named⟩ := members s member
    rw [Text.sameFolded, beq_iff_eq]
    rcases memberId?_cases named with ⟨name, rfl⟩ | ⟨name, rfl⟩
    · unfold NodeId.method
      rw [NodeId.lower_text_inj, NodeId.alike_ofKey_iff]
      simp only [true_and, ne_eq, reduceCtorEq, not_false_eq_true]
      exact ⟨.inr, fun alike => alike.elim (fun same => by rw [same]) id⟩
    · unfold NodeId.method NodeId.property
      rw [NodeId.lower_text_inj, NodeId.alike_ofKey_iff]
      simp
  | property d =>
    simp only [isRepeated, List.contains_iff_exists_mem_beq, beq_iff_eq]
    apply step
    intro s member
    obtain rfl : id = .property typeName d.name := by simpa [memberId?] using own.symm
    obtain ⟨other, named⟩ := members s member
    constructor
    · rintro rfl
      exact .refl _
    · intro alike
      rcases memberId?_cases named with ⟨name, rfl⟩ | ⟨name, rfl⟩
      · exact absurd alike.kind_eq (by simp)
      · rcases (NodeId.alike_ofKey_iff.mp alike).2 with same | ⟨other, _⟩
        · exact (NodeId.ofKey_inj.mpr ⟨rfl, same⟩).symm
        · exact absurd rfl other
  | constant => simp [memberId?] at own

/-- What `memberIdsFrom` adds to the identifiers it has seen: those of members, no two alike. -/
theorem memberIdsFrom_pairwise {seen : List NodeId} (members : List Member)
    (named : ∀ s ∈ seen, NamesMember typeName s) (apart : seen.Pairwise fun a b => ¬ a.Alike b)
    : (∀ id ∈ memberIdsFrom typeName seen members, NamesMember typeName id)
      ∧ (memberIdsFrom typeName seen members).Pairwise fun a b => ¬ a.Alike b := by
  induction members generalizing seen with
  | nil => exact ⟨named, apart⟩
  | cons m members ih =>
    unfold memberIdsFrom
    split
    · rename_i id own
      split
      · exact ih named apart
      · rename_i new
        rw [isRepeated_iff own named] at new
        refine ih (List.forall_mem_append.mpr ⟨named, List.forall_mem_singleton.mpr ⟨m, own⟩⟩) ?_
        rw [List.pairwise_append]
        refine ⟨apart, List.pairwise_singleton _ _, fun s inside last member alike => ?_⟩
        obtain rfl := List.mem_singleton.mp member
        exact new ⟨s, inside, alike⟩
    · exact ih named apart

theorem memberIds_named {members : List Member} (h : id ∈ memberIds typeName members)
    : NamesMember typeName id :=
  (memberIdsFrom_pairwise members (by simp) .nil).1 id h

theorem memberIds_pairwise (typeName : String) (members : List Member)
    : (memberIds typeName members).Pairwise fun a b => ¬ a.Alike b :=
  (memberIdsFrom_pairwise members (by simp) .nil).2

end Binding

variable {scope : Binding.TypeScope}

/-- A member whose identifier is taken adds nothing, and else it adds one node. -/
theorem draftMember_cases (path : String) (known : List NodeId)
    (own : Binding.memberId? scope.name m = some id)
    : if Taken known id then
        (draftMember path scope known m).outline = .done ∧ (draftMember path scope known m).shadowed = [id]
      else ∃ node, node.id = id ∧ node.isSpace = false
        ∧ (draftMember path scope known m).outline
          = .entry node (draftStmts path (known ++ [id]) m.statements).outline .done
        ∧ (draftMember path scope known m).shadowed
          = (draftStmts path (known ++ [id]) m.statements).shadowed := by
  cases m with
  | method d =>
    obtain rfl := Option.some.inj own
    rw [draftMember]
    split
    · rename_i taken
      simp [Drafted.declare, taken]
    · rename_i new
      have body : (draftBody path (known ++ [.method scope.name d.name]) d.body).outline
            = (draftStmts path (known ++ [.method scope.name d.name]) (d.body.getD [])).outline
          ∧ (draftBody path (known ++ [.method scope.name d.name]) d.body).shadowed
            = (draftStmts path (known ++ [.method scope.name d.name]) (d.body.getD [])).shadowed := by
        cases d.body <;> simp [draftBody, draftStmts, Drafted.map]
      simp only [Drafted.declare, new, if_false, body]
      exact ⟨_, rfl, rfl, rfl, rfl⟩
  | property d =>
    obtain rfl := Option.some.inj own
    rw [draftMember]
    split
    · rename_i taken
      simp [Drafted.declare, taken]
    · rename_i new
      simp only [Drafted.declare, new, if_false, Member.statements, draftStmts, and_true]
      exact ⟨_, rfl, rfl, rfl⟩
  | constant => simp [Binding.memberId?] at own

theorem draftMember_of_none {path : String} (none : Binding.memberId? scope.name m = none)
    : (draftMember path scope known m).outline = .done
      ∧ (draftMember path scope known m).shadowed = [] := by
  cases m with
  | method | property => simp [Binding.memberId?] at none
  | constant =>
    rw [draftMember]
    exact ⟨rfl, rfl⟩

/-- The list of member identifiers goes with the draft of the members. -/
theorem lists_draftMembers (path : String) (known seen : List NodeId) (members : List Member)
    (named : ∀ s ∈ seen, Binding.NamesMember scope.name s) (taken : ∀ s ∈ seen, Taken known s)
    : ∃ ids, Binding.memberIdsFrom scope.name seen members = seen ++ ids
      ∧ Lists known ids (draftMembers path scope known members).outline := by
  induction members generalizing known seen with
  | nil => exact ⟨[], by simp [Binding.memberIdsFrom], by rw [draftMembers]; exact .done⟩
  | cons m members ih =>
    rw [draftMembers, Drafted.both]
    unfold Binding.memberIdsFrom
    split
    · rename_i id own
      have first := draftMember_cases path known own
      split
      · rename_i repeated
        rw [Binding.isRepeated_iff own named] at repeated
        obtain ⟨s, inside, alike⟩ := repeated
        rw [if_pos ((taken s inside).of_alike alike)] at first
        simpa [first.1] using ih _ _ named taken
      · have named' : ∀ s ∈ seen ++ [id], Binding.NamesMember scope.name s :=
          List.forall_mem_append.mpr ⟨named, List.forall_mem_singleton.mpr ⟨m, own⟩⟩
        split at first
        · rename_i there
          have taken' : ∀ s ∈ seen ++ [id], Taken known s :=
            List.forall_mem_append.mpr ⟨taken, List.forall_mem_singleton.mpr there⟩
          obtain ⟨ids, same, lists⟩ := ih _ _ named' taken'
          exact ⟨id :: ids, by simpa using same, by simpa [first.1] using .foreign there lists⟩
        · obtain ⟨node, rfl, other, first, _⟩ := first
          have taken' : ∀ s ∈ seen ++ [node.id], Taken (known ++ node.id
              :: (draftStmts path (known ++ [node.id]) m.statements).outline.ids) s :=
            List.forall_mem_append.mpr ⟨fun s old => taken_append.mpr (.inl (taken s old)),
              List.forall_mem_singleton.mpr (taken_of_mem (by simp))⟩
          obtain ⟨ids, same, lists⟩ := ih _ _ named' taken'
          exact ⟨node.id :: ids, by simpa using same, by simpa [first] using .own other lists⟩
    · rename_i none
      simpa [(draftMember_of_none none).1] using ih _ _ named taken

theorem lists_memberIds (path : String) (scope : Binding.TypeScope) (known : List NodeId)
    (members : List Member)
    : Lists known (Binding.memberIds scope.name members)
        (draftMembers path scope known members).outline := by
  obtain ⟨ids, same, lists⟩ := lists_draftMembers path known [] members (by simp) (by simp)
  rw [Binding.memberIds, same]
  exact lists

section

variable {source : String → Part → Prop}

variable {path : String}

/-- Opening a namespace leaves no marker. -/
theorem marks_opening {s : Stmt} (here : source path (.stmt s))
    : Outline.Marks source known [] (s.opening path) := by
  unfold Stmt.opening
  split
  · rename_i name body span
    split
    · exact .done
    · rename_i named
      have isOpen : name.isEmpty = false := by simpa using named
      exact ⟨.entry ⟨path, _, here, .space _ rfl isOpen⟩ (.inl rfl)
        ⟨.done, fun _ => rfl, by simp, fun _ => rfl⟩ .done .done, by simp [Node.owner?], rfl⟩
  · exact .done

/-- Drafts that follow each other leave the markers that each leaves. -/
theorem marks_each {α β : Type} {draft : List NodeId → α → Drafted β} {marks : β → List NodeId}
    {items : List α} (h : ∀ a ∈ items, ∀ known,
      Outline.Marks source known (marks (draft known a).value) (draft known a).outline)
    (known : List NodeId)
    : Outline.Marks source known ((Drafted.each draft known items).value.flatMap marks)
        (Drafted.each draft known items).outline := by
  induction items generalizing known with
  | nil => exact .done
  | cons a rest ih => exact (h a (by simp) known).append (ih (fun b member => h b (by simp [member])) _)

theorem marks_draftStmts (known : List NodeId) {body : List Stmt}
    (each : ∀ s ∈ body, ∀ known, Outline.Marks source known
      (Part.stmt (draftStmt path known s).value).markers (draftStmt path known s).outline)
    : Outline.Marks source known (markersIn (draftStmts path known body).value)
        (draftStmts path known body).outline := by
  rw [draftStmts_eq]
  exact marks_each each known

/-- A member adds at most one node, of the type whose scope it is bound in. -/
theorem formed_draftMember (known : List NodeId) {declared : List Member} {p : Part}
    (here : source path p) (declares : p.scope? = some (scope, declared)) (member : m ∈ declared)
    (each : ∀ s ∈ m.statements, ∀ known, Outline.Marks source known
      (Part.stmt (draftStmt path known s).value).markers (draftStmt path known s).outline)
    : (draftMember path scope known m).outline.Formed source known
      ∧ ∀ n ∈ (draftMember path scope known m).outline.roots, n.owner? = some scope.name := by
  cases m with
  | method d =>
    have body : Outline.Marks source (known ++ [.method scope.name d.name])
        (markersIn ((draftBody path (known ++ [.method scope.name d.name]) d.body).value.getD []))
        (draftBody path (known ++ [.method scope.name d.name]) d.body).outline := by
      cases code : d.body with
      | none =>
        rw [draftBody]
        exact .done
      | some body =>
        rw [draftBody]
        exact marks_draftStmts _ fun t inside =>
          each t (by simpa [Member.statements, code] using inside)
    rw [draftMember]
    unfold Drafted.declare
    split
    · exact ⟨.done, by simp⟩
    · rename_i new
      exact ⟨.entry ⟨path, p, here, .method declares member _⟩ (.inr new) (body.shaped rfl rfl rfl)
        body.formed .done, by simp [Node.owner?, Binding.methodNode]⟩
  | property d =>
    rw [draftMember]
    unfold Drafted.declare
    split
    · exact ⟨.done, by simp⟩
    · rename_i new
      exact ⟨.entry ⟨path, p, here, .property declares member⟩ (.inr new)
        ⟨.done, fun _ => rfl, by simp, fun _ => rfl⟩ .done .done,
        by simp [Node.owner?, Binding.propertyNode]⟩
  | constant d =>
    rw [draftMember]
    exact ⟨.done, by simp⟩

theorem formed_draftMembers (known : List NodeId) {members declared : List Member} {p : Part}
    (here : source path p) (declares : p.scope? = some (scope, declared)) (sub : members ⊆ declared)
    (each : ∀ m ∈ members, ∀ s ∈ m.statements, ∀ known, Outline.Marks source known
      (Part.stmt (draftStmt path known s).value).markers (draftStmt path known s).outline)
    : (draftMembers path scope known members).outline.Formed source known
      ∧ ∀ n ∈ (draftMembers path scope known members).outline.roots, n.owner? = some scope.name := by
  induction members generalizing known with
  | nil =>
    rw [draftMembers]
    exact ⟨.done, by simp⟩
  | cons m rest ih =>
    have first := formed_draftMember known here declares (sub (by simp)) (each m (by simp))
    have others := ih (known ++ (draftMember path scope known m).outline.ids)
      (fun x member => sub (by simp [member])) fun x member => each x (by simp [member])
    rw [draftMembers]
    refine ⟨first.1.append others.1, fun n member => ?_⟩
    simp only [Drafted.both, Outline.roots_append, List.mem_append] at member
    exact member.elim (first.2 n) (others.2 n)

/-- A drafted statement has the markers of what its draft declares directly. -/
theorem marks_draftStmt (plain : ∀ path p, source path p → p.marker? = none) (s : Stmt)
    : s.Everywhere (source path)
      → ∀ known, Outline.Marks source known (Part.stmt (draftStmt path known s).value).markers
          (draftStmt path known s).outline := by
  induction s using Stmt.bodyInduction with
  | classDecl d ih | interfaceDecl d ih =>
    intro h known
    have members (known : List NodeId) := formed_draftMembers known h.self rfl (fun _ => id)
      fun m member t inside =>
        ih m member t inside (h.held t (List.mem_flatMap.mpr ⟨m, member, inside⟩))
    rw [draftStmt]
    refine marks_declare (fun _ => rfl) (fun _ => ⟨rfl, rfl⟩) ⟨path, _, h.self, by constructor⟩
      ⟨?_, by simp [Node.type?], ?_, by simp [Node.isSpace]⟩ (members _).1
      (h.markers_eq_nil (plain path)) ?_
    · exact lists_memberIds path ⟨d.name, _⟩ _ d.members
    · simpa [Node.scope?, TypeNode.qualifiedName, Binding.classNode, NodeId.classType,
        Binding.interfaceNode, NodeId.interfaceType] using (members _).2
    · rw [Part.markers_eq]
      rfl
  | functionDecl d ih =>
    intro h known
    have body := marks_draftStmts (known ++ [.function d.name]) fun t member =>
      ih t member (h.held t member)
    rw [draftStmt]
    refine marks_declare (fun _ => rfl) (fun _ => ⟨rfl, rfl⟩) ⟨path, _, h.self, .function d _⟩
      (body.shaped rfl rfl rfl) body.formed (h.markers_eq_nil (plain path)) ?_
    rw [Part.markers_eq]
    rfl
  | other s kind ih =>
    intro h known
    have inner := marks_each (fun body member known => marks_draftStmts known fun t inside =>
      ih body member t inside (h.bodies body member t inside)) (known ++ (s.opening path).ids)
    have value := Stmt.markers_rebuild
      (length_draftBodies path (known ++ (s.opening path).ids) s.bodies)
      (h.markers_eq_nil (plain path))
    rw [← draftBodies_eq, ← markersIn_flatten] at inner
    rw [draftStmt_of_other kind]
    simp only [Drafted.both, value]
    exact (marks_opening h.self).append inner

end

end DesignMetrics
