import DesignMetrics.Proofs.Traversal.Members

/-! Members that are left out.
A type lists its members before any of them is bound, and binding looks for the identifier of each
member among all that is declared. In plain files the two leave out the same members.
-/

namespace DesignMetrics

variable {id : NodeId}

namespace Binding

def repeatedIdsFrom (typeName : String) (seen : List NodeId) : List Member → List NodeId
  | [] => []
  | m :: rest =>
    match memberId? typeName m with
    | some id =>
      if isRepeated seen id m then id :: repeatedIdsFrom typeName seen rest
      else repeatedIdsFrom typeName (seen ++ [id]) rest
    | none => repeatedIdsFrom typeName seen rest

def repeatedIds (typeName : String) (members : List Member) : List NodeId :=
  repeatedIdsFrom typeName [] members

variable {typeName : String}

/-- Every method and property is listed or left out. -/
theorem memberIdsFrom_perm (seen : List NodeId) (members : List Member)
    : (memberIdsFrom typeName seen members ++ repeatedIdsFrom typeName seen members).Perm
        (seen ++ members.filterMap (memberId? typeName)) := by
  induction members generalizing seen with
  | nil => simp [memberIdsFrom, repeatedIdsFrom]
  | cons m members ih =>
    cases own : memberId? typeName m with
    | none => simpa [memberIdsFrom, repeatedIdsFrom, own] using ih seen
    | some id =>
      by_cases again : isRepeated seen id m
      · simp only [memberIdsFrom, repeatedIdsFrom, own, again, if_true, List.filterMap_cons]
        exact List.perm_middle.trans (((ih seen).cons id).trans List.perm_middle.symm)
      · simpa [memberIdsFrom, repeatedIdsFrom, own, again] using ih (seen ++ [id])

/-- Methods and properties are listed in their order. -/
theorem memberIdsFrom_sublist (seen : List NodeId) (members : List Member)
    : (memberIdsFrom typeName seen members).Sublist
        (seen ++ members.filterMap (memberId? typeName)) := by
  induction members generalizing seen with
  | nil => simp [memberIdsFrom]
  | cons m members ih =>
    cases own : memberId? typeName m with
    | none => simpa [memberIdsFrom, own] using ih seen
    | some id =>
      by_cases again : isRepeated seen id m
      · simp only [memberIdsFrom, own, again, if_true, List.filterMap_cons]
        exact (ih seen).trans ((List.sublist_cons_self id _).append_left seen)
      · simpa [memberIdsFrom, own, again] using ih (seen ++ [id])

theorem namesMember_of_mem {members : List Member} (h : id ∈ members.filterMap (memberId? typeName))
    : NamesMember typeName id := by
  obtain ⟨m, _, own⟩ := List.mem_filterMap.mp h
  exact ⟨m, own⟩

end Binding

open Binding

variable {files : List SourceFile} {t : TypeNode} {path : String} {scope : TypeScope}

theorem Plain.colon_notMem_scope (plain : Plain files) {p : Part} (sourced : Sourced files path p)
    {members : List Member} (declares : p.scope? = some (scope, members)) : ':' ∉ scope.name.toList := by
  obtain ⟨file, inside, _, part⟩ := sourced
  obtain ⟨kind, type⟩ : ∃ kind, p.type? = some (kind, scope.name) := by
    unfold Part.scope? at declares
    split at declares
    · obtain ⟨rfl, _⟩ := Prod.mk.inj (Option.some.inj declares)
      exact ⟨_, rfl⟩
    · obtain ⟨rfl, _⟩ := Prod.mk.inj (Option.some.inj declares)
      exact ⟨_, rfl⟩
    · simp at declares
  exact plain.names file inside (kind, scope.name) (List.mem_filterMap.mpr ⟨p, part, type⟩)

/-- A node with the identifier of a member of a type belongs to this type. -/
theorem Plain.owner?_eq (plain : Plain files) {n : Node} (node : StandsIn files n)
    (type : StandsIn files (.type t)) (names : NamesMember t.qualifiedName n.id)
    : n.owner? = some t.qualifiedName := by
  obtain ⟨path, p, sourced, stands⟩ := node
  have kinds : n.kind = .method ∨ n.kind = .property := by
    obtain ⟨key, named⟩ := stands.id_eq
    obtain ⟨m, own⟩ := names
    rw [named] at own
    rcases memberId?_cases own with ⟨name, same⟩ | ⟨name, same⟩
    · exact .inl (NodeId.ofKey_inj.mp same).1
    · exact .inr (NodeId.ofKey_inj.mp same).1
  cases stands with
  | method declares member known =>
    rw [NamesMember.name_eq names ⟨.method _, rfl⟩ (plain.colon_notMem type)
      (plain.colon_notMem_scope sourced declares)]
    rfl
  | property declares member =>
    rw [NamesMember.name_eq names ⟨.property _, rfl⟩ (plain.colon_notMem type)
      (plain.colon_notMem_scope sourced declares)]
    rfl
  | _ => simp [Node.kind, classNode, interfaceNode, TypeKind.nodeKind] at kinds

def Splits (files : List SourceFile) (t : TypeNode) (declared shadowed : List NodeId) : Prop :=
  ∃ path p scope members, Sourced files path p ∧ Stands path p (.type t)
    ∧ p.scope? = some (scope, members)
    ∧ declared.filter (· ∈ members.filterMap (memberId? scope.name)) = t.members
    ∧ shadowed.filter (· ∈ members.filterMap (memberId? scope.name)) = repeatedIds scope.name members

/-- Nothing else that is declared or shadowed matters. -/
theorem Splits.append {declared shadowed : List NodeId} (h : Splits files t declared shadowed)
    (before after before' after' : List NodeId)
    (other : ∀ id ∈ before ++ after ++ (before' ++ after'), ¬ NamesMember t.qualifiedName id)
    : Splits files t (before ++ declared ++ after) (before' ++ shadowed ++ after') := by
  obtain ⟨path, p, scope, members, sourced, stands, declares, listed, left⟩ := h
  have none (ids : List NodeId) (sub : ∀ id ∈ ids, ¬ NamesMember t.qualifiedName id)
      : ids.filter (· ∈ members.filterMap (memberId? scope.name)) = [] := by
    rw [List.filter_eq_nil_iff]
    intro id member own
    have names := namesMember_of_mem (of_decide_eq_true own)
    rw [(stands.scope_name declares).1] at names
    exact sub id member names
  simp only [List.forall_mem_append] at other
  refine ⟨path, p, scope, members, sourced, stands, declares, ?_, ?_⟩
  · simp only [List.filter_append, none before other.1.1, none after other.1.2, listed, List.append_nil,
      List.nil_append]
  · simp only [List.filter_append, none before' other.2.1, none after' other.2.2, left, List.append_nil,
      List.nil_append]

variable {owner : Option String} {known : List NodeId}

def OwnerKnown (files : List SourceFile) (owner : Option String) (known : List NodeId) : Prop :=
  ∀ t, StandsIn files (.type t) → owner = some t.qualifiedName → Taken known t.id

/-- What holds of a draft whose direct declarations belong to `owner`. -/
structure Audited {α : Type} (files : List SourceFile) (owner : Option String) (known : List NodeId)
    (d : Drafted α) : Prop where
  new : d.outline.NewIn (Sourced files) owner known
  within : ∀ t, StandsIn files (.type t) → ∀ id ∈ d.outline.ids ++ d.shadowed,
    NamesMember t.qualifiedName id
    → owner = some t.qualifiedName ∨ ¬ Taken known t.id ∧ Taken d.outline.ids t.id
  splits : ∀ t inside, (.type t, inside) ∈ d.outline.entries → t.members = inside.markers
    → Splits files t d.outline.ids d.shadowed

namespace Audited

variable {α β γ : Type}

theorem done (value : α) : Audited files owner known { value } :=
  ⟨.done, by simp, by simp⟩

theorem map {d : Drafted α} (h : Audited files owner known d) (f : α → β)
    : Audited files owner known (d.map f) :=
  ⟨h.new, h.within, h.splits⟩

/-- A type that is declared in one of two drafts is not declared in the other, and so is none of its
members. -/
theorem both (ownerKnown : OwnerKnown files owner known) (f : α → β → γ) {first : Drafted α}
    {rest : Drafted β} (left : Audited files owner known first)
    (right : Audited files owner (known ++ first.outline.ids) rest)
    : Audited files owner known (.both f first rest) where
  new := left.new.append right.new
  within t type id member names := by
    have either : id ∈ first.outline.ids ++ first.shadowed ∨ id ∈ rest.outline.ids ++ rest.shadowed := by
      simp only [Drafted.both, Outline.ids_append, List.mem_append] at member ⊢
      exact or_or_or_comm.mp member
    simp only [Drafted.both, Outline.ids_append, taken_append]
    rcases either with here | later
    · exact (left.within t type id here names).imp_right (And.imp_right .inl)
    · exact (right.within t type id later names).imp_right
        (And.imp (fun new taken => new (taken_append.mpr (.inl taken))) .inr)
  splits t inside entry listed := by
    simp only [Drafted.both, Outline.entries_append, List.mem_append, Outline.ids_append] at entry ⊢
    rcases entry with here | later
    · have node := Outline.mem_nodes_of_mem_entries here
      have type := left.new.new.standsIn node
      have fresh := (left.new.new.fresh_of_mem node).resolve_left (by simp [Node.isSpace])
      refine (left.splits t inside here listed).append [] rest.outline.ids [] rest.shadowed ?_
      intro id member names
      rcases right.within t type id member names with own | ⟨new, _⟩
      · exact fresh (ownerKnown t type own)
      · exact new (taken_append.mpr (.inr (taken_of_mem (List.mem_map_of_mem node))))
    · have node := Outline.mem_nodes_of_mem_entries later
      have type := right.new.new.standsIn node
      have fresh := (right.new.new.fresh_of_mem node).resolve_left (by simp [Node.isSpace])
      rw [taken_append, not_or] at fresh
      have none : ∀ id ∈ first.outline.ids ++ first.shadowed, ¬ NamesMember t.qualifiedName id := by
        intro id member names
        rcases left.within t type id member names with own | ⟨_, there⟩
        · exact fresh.1 (ownerKnown t type own)
        · exact fresh.2 there
      have splits := right.splits t inside later listed
      simpa using splits.append first.outline.ids [] first.shadowed [] (by simpa using none)

/-- A declaration is no member but of its own type, whether it is refused or accepted. One that is
accepted shadows what is shadowed inside it. -/
theorem declare (plain : Plain files) (ownerKnown : OwnerKnown files owner known) {bare bound : β}
    {node : α → Node} {inside : Drafted α}
    (named : ∀ a, (node a).id = id) (belongs : (node inside.value).owner? = owner)
    (origin : StandsIn files (node inside.value))
    (inner : Audited files (node inside.value).scope? (known ++ [id]) inside)
    (own : ∀ t, node inside.value = .type t → t.members = inside.outline.markers
      → Splits files t inside.outline.ids inside.shadowed)
    : Audited files owner known (.declare known id bare bound node inside) := by
  have new : (Drafted.declare known id bare bound node inside).outline.NewIn (Sourced files) owner
      known :=
    newIn_declare named belongs origin inner.new
  have self (t : TypeNode) (type : StandsIn files (.type t)) (names : NamesMember t.qualifiedName id)
      : owner = some t.qualifiedName := by
    rw [← belongs]
    exact plain.owner?_eq origin type (named _ ▸ names)
  by_cases taken : Taken known id
  · refine ⟨new, fun t type x member names => .inl ?_, by simp [Drafted.declare, taken]⟩
    obtain rfl : x = id := by simpa [Drafted.declare, taken] using member
    exact self t type names
  · refine ⟨new, fun t type x member names => ?_, fun t within entry listed => ?_⟩
    · simp only [Drafted.declare, if_neg taken, Outline.ids_entry, Outline.ids_done, List.append_nil,
        taken_cons, named, List.cons_append, List.mem_cons] at member ⊢
      rcases member with rfl | member
      · exact .inl (self t type names)
      rcases inner.within t type x member names with scope | ⟨free, there⟩
      · have alike : id.Alike t.id := by
          have same := named inside.value
          cases opened : node inside.value with
          | type u =>
            rw [opened] at origin scope same
            subst same
            exact plain.alike_of_lower origin type (congrArg Text.lower (Option.some.inj scope))
          | _ => simp [opened, Node.scope?] at scope
        exact .inr ⟨fun before => taken (before.of_alike alike.symm), .inl alike⟩
      · exact .inr ⟨fun before => free (taken_append.mpr (.inl before)), .inr there⟩
    · simp only [Drafted.declare, if_neg taken, Outline.entries_entry, Outline.entries_done,
        List.append_nil, List.mem_cons, Outline.ids_entry, Outline.ids_done, named] at entry ⊢
      obtain ⟨type, fresh, splits⟩ : StandsIn files (.type t) ∧ ¬ Taken known t.id
          ∧ Splits files t inside.outline.ids inside.shadowed := by
        rcases entry with same | deeper
        · obtain ⟨opened, rfl⟩ := Prod.mk.inj same
          have same : t.id = id := (congrArg Node.id opened).trans (named _)
          exact ⟨opened ▸ origin, same ▸ taken, own t opened.symm listed⟩
        · have node := Outline.mem_nodes_of_mem_entries deeper
          have new := (inner.new.new.fresh_of_mem node).resolve_left (by simp [Node.isSpace])
          exact ⟨inner.new.new.standsIn node, fun before => new (taken_append.mpr (.inl before)),
            inner.splits t within deeper listed⟩
      have other : ¬ NamesMember t.qualifiedName id :=
        fun names => fresh (ownerKnown t type (self t type names))
      simpa using splits.append [id] [] [] [] (by simpa using other)

end Audited

/-- The body of a member has no member of its type: the type is not declared there. -/
theorem not_namesMember_of_body (type : StandsIn files (.type t)) (there : Taken known t.id)
    {body : List Stmt} (h : ∀ known, Audited files none known (draftStmts path known body))
    : ∀ x ∈ (draftStmts path (known ++ [id]) body).outline.ids
        ++ (draftStmts path (known ++ [id]) body).shadowed, ¬ NamesMember t.qualifiedName x := by
  intro x member names
  have within := (h _).within t type x member names
  exact (within.resolve_left (by simp)).1 (taken_append.mpr (.inl there))

section

variable {m : Member} {members : List Member} {seen : List NodeId}

/-- If exactly what is declared is listed, an identifier that is taken is one of an earlier member: else
the list would have it, and fewer of the others than are declared. -/
theorem isRepeated_of_taken (own : memberId? scope.name m = some id)
    (named : ∀ s ∈ seen, NamesMember scope.name s) (taken : ∀ s ∈ seen, Taken known s)
    (listed : memberIdsFrom scope.name seen (m :: members)
      = seen ++ (draftMembers path scope known (m :: members)).outline.markers)
    (before : Taken known id) : isRepeated seen id m := by
  refine Decidable.byContradiction fun fresh => ?_
  have outline := draftMember_cases path known own
  rw [if_pos before] at outline
  obtain ⟨ids, same, lists⟩ := lists_draftMembers path known (seen ++ [id]) members
    (List.forall_mem_append.mpr ⟨named, List.forall_mem_singleton.mpr ⟨m, own⟩⟩)
    (List.forall_mem_append.mpr ⟨taken, List.forall_mem_singleton.mpr before⟩)
  rw [draftMembers, Drafted.both] at listed
  simp only [outline, Outline.ids_done, List.append_nil, Outline.done_append, memberIdsFrom, own, fresh,
    Bool.false_eq_true, if_false, same] at listed
  have lengths := congrArg List.length listed
  have fewer := lists.markers_sublist.length_le
  simp only [List.length_append, List.length_singleton] at lengths
  omega

/-- If all members are listed that are declared, those that are shadowed are left out. By induction on
the members, with the identifiers of those before in `seen`. -/
theorem filter_draftMembers (type : StandsIn files (.type t)) (name : scope.name = t.qualifiedName)
    (bodies : ∀ m ∈ members, ∀ known, Audited files none known (draftStmts path known m.statements))
    {all : List Member} (sub : members ⊆ all) (there : Taken known t.id)
    (named : ∀ s ∈ seen, NamesMember scope.name s) (taken : ∀ s ∈ seen, Taken known s)
    (listed : memberIdsFrom scope.name seen members
      = seen ++ (draftMembers path scope known members).outline.markers)
    : (draftMembers path scope known members).outline.ids.filter
        (· ∈ all.filterMap (memberId? scope.name))
        = (draftMembers path scope known members).outline.markers
      ∧ (draftMembers path scope known members).shadowed.filter
        (· ∈ all.filterMap (memberId? scope.name))
        = repeatedIdsFrom scope.name seen members := by
  induction members generalizing known seen with
  | nil => simp [draftMembers, repeatedIdsFrom, Outline.markers]
  | cons m members ih =>
    have rest {known seen : List NodeId} :=
      @ih known seen (fun m' member => bodies m' (List.mem_cons_of_mem m member))
        fun m' member => sub (List.mem_cons_of_mem m member)
    cases own : memberId? scope.name m with
    | none =>
      obtain ⟨outline, shadowed⟩ : (draftMember path scope known m).outline = .done
          ∧ (draftMember path scope known m).shadowed = [] :=
        draftMember_of_none own
      simp only [draftMembers, Drafted.both, outline, shadowed, Outline.ids_done, List.append_nil,
        Outline.done_append, List.nil_append, memberIdsFrom, repeatedIdsFrom, own] at listed ⊢
      exact rest there named taken listed
    | some id =>
      have member := draftMember_cases path known own
      have kept : id ∈ all.filterMap (memberId? scope.name) :=
        List.mem_filterMap.mpr ⟨m, sub List.mem_cons_self, own⟩
      by_cases before : Taken known id
      · have again := isRepeated_of_taken own named taken listed before
        rw [if_pos before] at member
        simp only [draftMembers, Drafted.both, member, Outline.ids_done, List.append_nil,
          Outline.done_append, List.cons_append, List.nil_append, List.filter_cons, kept, decide_true,
          memberIdsFrom, repeatedIdsFrom, own, again, if_true, List.cons.injEq, true_and] at listed ⊢
        exact rest there named taken listed
      · have fresh : ¬ isRepeated seen id m := by
          rw [isRepeated_iff own named]
          rintro ⟨s, inside, alike⟩
          exact before ((taken s inside).of_alike alike)
        have none {ids : List NodeId} (inside : ids
            ⊆ (draftStmts path (known ++ [id]) m.statements).outline.ids
              ++ (draftStmts path (known ++ [id]) m.statements).shadowed)
            : ids.filter (· ∈ all.filterMap (memberId? scope.name)) = [] := by
          rw [List.filter_eq_nil_iff]
          intro x member kept
          exact not_namesMember_of_body type there (bodies m List.mem_cons_self) x (inside member)
            (name ▸ namesMember_of_mem (of_decide_eq_true kept))
        rw [if_neg before] at member
        obtain ⟨node, rfl, other, outline, shadowed⟩ := member
        simp only [draftMembers, Drafted.both, outline, shadowed, List.filter_append, none
          (List.subset_append_left _ _), none (List.subset_append_right _ _), Outline.ids_append,
          Outline.markers_append, Outline.ids_entry, Outline.ids_done, List.append_nil, List.nil_append,
          List.cons_append, List.filter_cons, kept, decide_true, if_true, memberIdsFrom, repeatedIdsFrom,
          own, fresh, Bool.false_eq_true, if_false] at listed ⊢
        have marker : (Outline.entry node (draftStmts path (known ++ [node.id]) m.statements).outline
            .done).markers = [node.id] := by simp [Outline.markers, other]
        rw [marker] at listed ⊢
        have later := rest (taken_append.mpr (.inl there))
          (List.forall_mem_append.mpr ⟨named, List.forall_mem_singleton.mpr ⟨m, own⟩⟩)
          (List.forall_mem_append.mpr ⟨fun s old => taken_append.mpr (.inl (taken s old)),
            List.forall_mem_singleton.mpr
              (taken_of_mem (List.mem_append_right _ List.mem_cons_self))⟩)
          (by simpa using listed)
        exact ⟨congrArg (List.cons node.id) later.1, later.2⟩

end

/-- In a plain file each draft is audited, by induction on how it is assembled. -/
theorem Assembled.audited (plain : Plain files) {n : Nest} {α : Type} {d : List NodeId → Drafted α}
    (h : Assembled (Sourced files) owner n d) (known : List NodeId)
    (ownerKnown : OwnerKnown files owner known) : Audited files owner known (d known) := by
  induction h generalizing known with
  | nothing a => exact .done a
  | @opening path s here =>
    have opening : (s.opening path).NewIn (Sourced files) none known := newIn_opening here
    refine ⟨opening, fun t type x member names => ?_, fun t inside entry => ?_⟩
    · rw [List.append_nil] at member
      obtain ⟨n, opened, rfl⟩ := List.mem_map.mp member
      have belongs := plain.owner?_eq (opening.new.standsIn opened) type names
      have space := Stmt.isSpace_of_mem_opening opened
      cases n <;> simp_all [Node.owner?, Node.isSpace]
    · have space := Stmt.isSpace_of_mem_opening (Outline.mem_nodes_of_mem_entries entry)
      simp [Node.isSpace] at space
  | map f _ ih => exact (ih known ownerKnown).map f
  | both f _ _ left right =>
    exact .both ownerKnown f (left known ownerKnown) (right _ fun t type own =>
      taken_append.mpr (.inl (ownerKnown t type own)))
  | @type path p scope members t _ _ _ _ here stands declares _ _ bodies inner =>
    have type : StandsIn files (.type t) := ⟨path, p, here, stands⟩
    obtain ⟨name, listed⟩ := stands.scope_name declares
    have self : OwnerKnown files (some scope.name) (known ++ [t.id]) := fun u type' own => ⟨t.id,
      by simp, plain.alike_of_lower type type' (congrArg Text.lower (name ▸ Option.some.inj own))⟩
    refine .declare plain ownerKnown (fun _ => rfl) rfl type ?_ ?_
    · rw [Node.scope?, ← name]
      exact inner _ self
    · rintro _ ⟨⟩ all
      refine ⟨path, p, scope, members, here, stands, declares, ?_⟩
      rw [all]
      exact filter_draftMembers type name
        (fun m member known => bodies m member known (by simp [OwnerKnown])) (List.Subset.refl _)
        (taken_of_mem (by simp)) (by simp) (by simp) (listed.symm.trans all)
  | callable same origin _ inner =>
    refine .declare plain ownerKnown (fun a => (same a).1) (same _).2.2.1 (origin _) ?_ ?_
    · rw [(same _).2.2.2]
      exact inner _ (by simp [OwnerKnown])
    · intro t type
      have other := (same _).2.2.2.symm.trans (congrArg Node.scope? type)
      simp [Node.scope?] at other

theorem Plain.mono (plain : Plain files) {fewer : List SourceFile} (sub : fewer ⊆ files)
    : Plain fewer where
  names file member := plain.names file (sub member)
  kinds file member type inside file' member' :=
    plain.kinds file (sub member) type inside file' (sub member')

/-- Every type that is bound from plain files lists, in their order, those of its methods and
properties that are declared in the unit of its file, and leaves out those that are shadowed there. -/
theorem member_lists_agree {files : List (SourceFile × String)}
    (unbound : ∀ file ∈ files, file.1.Unbound) (plain : Plain (files.map Prod.fst)) {t : TypeNode}
    (bound : .type t ∈ (bindAll ∅ files).2.toList)
    : ∃ file fingerprint unit p scope members,
        ((file, fingerprint), unit) ∈ files.zip (bindAll ∅ files).1
        ∧ t.id ∈ unit.declared ∧ p ∈ file.parts ∧ Stands file.path p (.type t)
        ∧ p.scope? = some (scope, members)
        ∧ let ids := members.filterMap (memberId? scope.name)
          t.members = unit.declared.filter (· ∈ ids)
          ∧ repeatedIds scope.name members = unit.shadowed.filter (· ∈ ids)
          ∧ t.members.Sublist ids
          ∧ (t.members ++ repeatedIds scope.name members).Perm ids := by
  obtain ⟨o, whole, drafted⟩ := bindAll_drafted (by simpa using unbound)
    (List.Subset.refl (files.map Prod.fst)) Tracks.empty
  obtain ⟨inside, entry⟩ := Outline.exists_mem_entries (whole.laid.mem_iff.mp ⟨bound, rfl⟩).1
  have listed := plain.members_eq whole.laid whole.marks.bodies entry
  obtain ⟨⟨⟨file, fingerprint⟩, unit⟩, zipped, before, declared, shadowed, here⟩ := drafted _ entry
  have member : file ∈ files.map Prod.fst := List.mem_map_of_mem (List.of_mem_zip zipped).1
  have alone : Plain [file] := plain.mono (by simpa using member)
  have audited : Audited [file] none before (file.draft before) :=
    (file.assembled (List.mem_singleton_self file)).audited alone before (by simp [OwnerKnown])
  obtain ⟨path, p, scope, members, ⟨own, same, rfl, part⟩, stands, declares, kept, left⟩ :=
    audited.splits t inside here listed
  obtain rfl : file = own := (List.mem_singleton.mp same).symm
  obtain ⟨_, ids⟩ := stands.scope_name declares
  have order : t.members.Sublist (members.filterMap (memberId? scope.name)) :=
    ids ▸ memberIdsFrom_sublist [] members
  refine ⟨file, fingerprint, unit, p, scope, members, zipped, ?_, part, stands, declares, ?_, ?_,
    order, ?_⟩
  · rw [declared]
    exact List.mem_map_of_mem (Outline.mem_nodes_of_mem_entries here)
  · rw [declared, kept]
  · rw [shadowed, left]
  · rw [ids]
    exact memberIdsFrom_perm [] members

def repeating : SourceFile :=
  let method (name : String) (body : List Stmt) : Member :=
    .method ⟨name, .isPublic, [], none, [], some body, ⟨1, 1⟩⟩
  let property (name : String) : Member := .property ⟨name, .isPublic, none, none, ⟨1, 1⟩⟩
  let inner (name : String) : Stmt := .classDecl ⟨name, .none, none, [], [method "m" []], ⟨1, 1⟩⟩
  ⟨"a.php", [.classDecl ⟨"A", .none, none, [], [method "m" [inner "B", inner "a"], property "p",
    method "M" [], property "P", property "p"], ⟨1, 1⟩⟩]⟩

/-- Two members are left out, and the class that is declared again in the method is shadowed whole. -/
theorem member_lists_agree_repeating
    : ∃ t, .type t ∈ (bindAll ∅ [(repeating, "")]).2.toList
      ∧ t.members = [.method "A" "m", .property "A" "p", .property "A" "P"]
      ∧ ∃ unit ids, unit ∈ (bindAll ∅ [(repeating, "")]).1
        ∧ unit.shadowed = [.classType "a", .method "A" "M", .property "A" "p"]
        ∧ t.members = unit.declared.filter (· ∈ ids)
        ∧ (t.members ++ unit.shadowed.filter (· ∈ ids)).Perm ids := by
  have unbound : ∀ file ∈ [(repeating, "")], file.1.Unbound := by decide +kernel
  have plain : Plain [repeating] := by decide +kernel
  have listed : (((bindAll ∅ [(repeating, "")]).2.toList[0]?.bind Node.type?).map TypeNode.members)
      = some [.method "A" "m", .property "A" "p", .property "A" "P"] := by decide +kernel
  have shadowed : ∀ unit ∈ (bindAll ∅ [(repeating, "")]).1,
      unit.shadowed = [.classType "a", .method "A" "M", .property "A" "p"] := by decide +kernel
  obtain ⟨t, found, members⟩ := Option.map_eq_some_iff.mp listed
  obtain ⟨n, first, type⟩ := Option.bind_eq_some_iff.mp found
  obtain rfl : n = .type t := by cases n <;> simp_all [Node.type?]
  have bound := List.mem_of_getElem? first
  obtain ⟨_, _, unit, _, _, _, zipped, _, _, _, _, declared, repeated, _, all⟩ :=
    member_lists_agree unbound plain bound
  have member := (List.of_mem_zip zipped).2
  exact ⟨t, bound, members, unit, _, member, shadowed unit member, declared, repeated ▸ all⟩

end DesignMetrics
