import DesignMetrics.Proofs.Traversal.Order

/-! The order in which a tour comes to nodes for the first time.
A type may list members that were declared elsewhere, and then nodes are entered several times. Without
a way back the first visits still are in the order in which the nodes were registered, because what is
listed from elsewhere is complete and leads to nothing new.
-/

namespace DesignMetrics

def firstVisits : List NodeId → List Node → List Node
  | _, [] => []
  | seen, x :: l =>
    if x.id ∈ seen then firstVisits seen l else x :: firstVisits (seen ++ [x.id]) l

@[simp] theorem firstVisits_nil (seen : List NodeId) : firstVisits seen [] = [] := rfl

variable {seen : List NodeId} {l : List Node} {x : Node}

theorem firstVisits_cons_of_mem (h : x.id ∈ seen)
    : firstVisits seen (x :: l) = firstVisits seen l := by
  simp [firstVisits, h]

theorem firstVisits_cons_of_notMem (h : x.id ∉ seen)
    : firstVisits seen (x :: l) = x :: firstVisits (seen ++ [x.id]) l := by
  simp [firstVisits, h]

theorem firstVisits_append (seen : List NodeId) (l more : List Node)
    : firstVisits seen (l ++ more)
      = firstVisits seen l ++ firstVisits (seen ++ (firstVisits seen l).map Node.id) more := by
  induction l generalizing seen with
  | nil => simp
  | cons x l ih => by_cases known : x.id ∈ seen <;> simp [firstVisits, known, ih]

theorem firstVisits_eq_nil (h : ∀ x ∈ l, x.id ∈ seen) : firstVisits seen l = [] := by
  induction l with
  | nil => rfl
  | cons x l ih =>
    rw [firstVisits_cons_of_mem (h x (by simp))]
    exact ih fun y member => h y (List.mem_cons_of_mem _ member)

theorem notMem_seen_of_mem_firstVisits (h : x ∈ firstVisits seen l) : x.id ∉ seen := by
  induction l generalizing seen with
  | nil => simp at h
  | cons y l ih =>
    by_cases known : y.id ∈ seen
    · rw [firstVisits_cons_of_mem known] at h
      exact ih h
    · rw [firstVisits_cons_of_notMem known] at h
      rcases List.mem_cons.mp h with rfl | later
      · exact known
      · exact fun member => ih later (List.mem_append_left _ member)

/-- What is visited first before something else is met before every visit of it. -/
theorem mem_of_sublist_firstVisits {before after : List Node} {y : Node}
    (order : [x, y].Sublist (firstVisits seen (before ++ y :: after))) : x ∈ before := by
  induction before generalizing seen with
  | nil =>
    have new : y.id ∉ seen := notMem_seen_of_mem_firstVisits (order.subset (by simp))
    rw [List.nil_append, firstVisits_cons_of_notMem new] at order
    have later : y ∈ firstVisits (seen ++ [y.id]) after := by
      cases order with
      | cons _ rest => exact rest.subset (by simp)
      | cons_cons _ rest => exact rest.subset (by simp)
    exact absurd (by simp) (notMem_seen_of_mem_firstVisits later)
  | cons z before ih =>
    by_cases known : z.id ∈ seen
    · rw [List.cons_append, firstVisits_cons_of_mem known] at order
      exact List.mem_cons_of_mem _ (ih order)
    · rw [List.cons_append, firstVisits_cons_of_notMem known] at order
      cases order with
      | cons _ rest => exact List.mem_cons_of_mem _ (ih rest)
      | cons_cons => exact List.mem_cons_self

theorem firstVisits_subset (seen : List NodeId) (l : List Node) : firstVisits seen l ⊆ l := by
  induction l generalizing seen with
  | nil => simp
  | cons a l ih =>
    rw [firstVisits]
    split
    · exact List.subset_cons_of_subset _ (ih seen)
    · exact List.cons_subset_cons _ (ih _)

def Forward (r : Registry) (known : List NodeId) (closed : List Node) (ids : List NodeId) : Prop :=
  ∀ id ∈ ids, ∀ y, r.node? id = some y
    → y ∈ declarations r.toList ∧ (y.id ∈ known → y ∈ closed)

section

variable {source : String → Part → Prop} {r : Registry} {whole : Outline} {known : List NodeId}
variable {n : Node} {inner rest : Outline} {closed above : List Node}

/-- The links of a node lead forward. -/
theorem Around.forward (around : Around r known (.entry n inner rest) closed above)
    (laid : Laid source r whole) (straight : ¬ WayBack r)
    (placed : Placed r known (.entry n inner rest))
    (formed : (Outline.entry n inner rest).Formed source known) (other : n.isSpace = false)
    : Forward r (known ++ [n.id]) closed n.links := by
  cases formed with
  | entry origin fresh shape inside after =>
    intro id link y found
    obtain ⟨z, there, found', admitted, place⟩ := link_found laid placed origin shape inside link
    obtain rfl := Option.some.inj (found.symm.trans found')
    refine ⟨there, fun earlier => ?_⟩
    rcases place with ⟨before, type⟩ | within
    · exact around.complete straight ⟨id, link, found⟩ admitted type other there before
    · rcases inside.fresh_of_mem within with space | new
      · simp [(mem_declarations.mp there).2] at space
      · exact absurd (taken_of_mem earlier) new

variable {ids : List NodeId}

/-- After an entry, identifiers still lead forward: what is inside of it is complete. -/
theorem Forward.after (h : Forward r known closed ids) (laid : Laid source r whole)
    (placed : Placed r known (.entry n inner rest))
    (formed : (Outline.entry n inner rest).Formed source known)
    : Forward r (known ++ n.id :: inner.ids)
        (closed ++ (inner.post ++ if n.isSpace then [] else [n])) ids := by
  intro id link y found
  obtain ⟨there, complete⟩ := h id link y found
  refine ⟨there, fun earlier => ?_⟩
  rcases placed.known_cases laid formed there earlier with before | ⟨other, rfl⟩ | within
  · exact List.mem_append_left _ (complete before)
  · simp [other]
  · have inside := (inner.post_perm.mem_iff (a := y)).mpr
      (mem_declarations.mpr ⟨within, (mem_declarations.mp there).2⟩)
    simp [inside]

/-- A node that is found at a taken identifier has a known one. -/
theorem Laid.mem_of_taken (laid : Laid source r whole) (ids : ∀ k ∈ known, k ∈ r.toList.map Node.id)
    {id : NodeId} (taken : Taken known id) {y : Node} (found : r.node? id = some y)
    (there : y ∈ declarations r.toList) : y.id ∈ known := by
  obtain ⟨k, member, alike⟩ := taken
  obtain ⟨z, inside, rfl⟩ := List.mem_map.mp (ids k member)
  rw [← laid.eq_declared there inside (alike.trans (Registry.alike_of_node? found).2.symm)]
  exact member

/-- What a tour has met when it comes to an outline: what is complete leads to nothing else. -/
structure Met (r : Registry) (known seen : List NodeId) (closed : List Node) : Prop where
  complete : ∀ x ∈ closed, ∀ y, Leads r x y → y ∈ closed
  old : ∀ x ∈ closed, x.id ∈ known ∧ x ∈ declarations r.toList
  same : ∀ x ∈ declarations r.toList, x.id ∈ seen ↔ x.id ∈ known

/-- A tour along identifiers that were taken before meets nothing new. -/
theorem Met.skip (met : Met r known seen closed) (laid : Laid source r whole)
    (there : ∀ k ∈ known, k ∈ r.toList.map Node.id) (forward : Forward r known closed ids)
    (taken : ∀ id ∈ ids, Taken known id) (tour : Tours r ids l) : firstVisits seen l = [] := by
  have inside : l ⊆ closed := tour.subset met.complete fun id member x found =>
    have ⟨declared, back⟩ := forward id member x found
    back (laid.mem_of_taken there (taken id member) found declared)
  refine firstVisits_eq_nil fun x member => ?_
  obtain ⟨earlier, declared⟩ := met.old x (inside member)
  exact (met.same x declared).mpr earlier

theorem Met.inside (met : Met r known seen closed) (id : NodeId)
    : Met r (known ++ [id]) (seen ++ [id]) closed where
  complete := met.complete
  old x member := ⟨List.mem_append_left _ (met.old x member).1, (met.old x member).2⟩
  same x declared := by simp [met.same x declared]

/-- After an entry, its own node and what is inside of it are complete. -/
theorem Met.after (met : Met r known seen closed) (laid : Laid source r whole)
    (straight : ¬ WayBack r) (placed : Placed r known (.entry n inner rest))
    (formed : (Outline.entry n inner rest).Formed source known)
    (around : Around r known (.entry n inner rest) closed above)
    : Met r (known ++ n.id :: inner.ids)
        (seen ++ ((if n.isSpace then [] else [n]) ++ declarations inner.nodes).map Node.id)
        (closed ++ (inner.post ++ if n.isSpace then [] else [n])) where
  complete x member y leads := by
    have settled := formed.settled laid straight placed around
    rw [Outline.post, ← List.append_assoc, settled_append] at settled
    rcases List.mem_append.mp member with already | now
    · exact List.mem_append_left _ (met.complete x already y leads)
    · exact settled.1.closed x now y leads
  old x member := by
    rcases List.mem_append.mp member with already | now
    · exact ⟨List.mem_append_left _ (met.old x already).1, (met.old x already).2⟩
    · rcases List.mem_append.mp now with within | self
      · rw [inner.post_perm.mem_iff, mem_declarations] at within
        exact ⟨by simp [Outline.ids, List.mem_map_of_mem within.1],
          placed.inside.mem_of_mem within.1 within.2⟩
      · cases kind : n.isSpace with
        | true => simp [kind] at self
        | false =>
          obtain rfl : x = n := by simpa [kind] using self
          exact ⟨by simp, placed.mem kind⟩
  same x declared := by
    rw [List.mem_append, met.same x declared, List.map_append, List.mem_append]
    constructor
    · rintro (before | self | within)
      · exact List.mem_append_left _ before
      · refine List.mem_append_right _ ?_
        split at self
        · simp at self
        · exact List.mem_cons.mpr (.inl (by simpa using self))
      · obtain ⟨y, member, id⟩ := List.mem_map.mp within
        refine List.mem_append_right _ (List.mem_cons_of_mem _ ?_)
        exact List.mem_map.mpr ⟨y, (mem_declarations.mp member).1, id⟩
    · intro id
      rcases placed.known_cases laid formed declared id with before | ⟨other, rfl⟩ | within
      · exact .inl before
      · exact .inr (.inl (by simp [other]))
      · exact .inr (.inr (List.mem_map_of_mem
          (mem_declarations.mpr ⟨within, (mem_declarations.mp declared).2⟩)))

/-- Without a way back, a tour along the list of an outline comes to its nodes in order, whatever it
meets in between.
-/
theorem Outline.Formed.firstVisits_eq {o : Outline} (laid : Laid source r whole)
    (straight : ¬ WayBack r) (h : o.Formed source known) (placed : Placed r known o)
    (around : Around r known o closed above) (met : Met r known seen closed)
    (lists : Lists known ids o) (forward : Forward r known closed ids) (tour : Tours r ids l)
    : firstVisits seen l = declarations o.nodes := by
  induction h generalizing closed above ids l seen with
  | done => exact met.skip laid (by simpa using placed.ids) forward (by simpa using lists.taken) tour
  | @entry known n inside after origin fresh shape inner rest inside_ih after_ih =>
    have formed := Outline.Formed.entry origin fresh shape inner rest
    obtain ⟨before, later, rfl, taken, lists⟩ := lists.of_entry
    obtain ⟨first, second, rfl, foreign, tour⟩ := tour.split
    have skipped : firstVisits seen first = [] :=
      met.skip laid (fun k member => placed.ids k (List.mem_append_left _ member))
        (fun id member => forward id (List.mem_append_left _ member)) taken foreign
    rw [firstVisits_append, skipped, List.map_nil, List.append_nil, List.nil_append]
    have forward' : Forward r known closed later := fun id member => forward id (by simp [member])
    have next {l : List Node} (tour : Tours r later l) :=
      after_ih placed.after (around.after laid placed formed)
        (met.after laid straight placed formed around) lists (forward'.after laid placed formed) tour
    cases kind : n.isSpace with
    | true =>
      obtain rfl := shape.leaf kind
      simp only [kind, if_true, List.nil_append] at tour
      rw [nodes_entry, declarations_cons_of_space kind]
      simpa [kind] using next tour
    | false =>
      have here := laid.node?_eq (placed.mem kind) (.refl _)
      have new : n.id ∉ seen := by
        rw [met.same n (placed.mem kind)]
        exact fun member => (fresh.resolve_left (by simp [kind])) (taken_of_mem member)
      simp only [kind, Bool.false_eq_true, if_false, List.singleton_append] at tour
      cases tour with
      | @cons _ _ x inner_tour _ found within later_tour =>
        obtain rfl : n = x := Option.some.inj (here.symm.trans found)
        have inner_first := inside_ih placed.inside (around.inside laid placed shape kind)
          (met.inside n.id) shape.lists (around.forward laid straight placed formed kind) within
        have after_first := next later_tour
        rw [firstVisits_cons_of_notMem new, firstVisits_append, inner_first, nodes_entry,
          declarations_cons kind, declarations_append]
        simpa [kind] using after_first

theorem Laid.firstVisits_eq (laid : Laid source r whole) (straight : ¬ WayBack r)
    (tour : Tours r whole.markers l) : firstVisits [] l = declarations r.toList := by
  rw [laid.nodes]
  refine laid.formed.firstVisits_eq laid straight laid.placed (.start r whole) ⟨?_, ?_, ?_⟩
    (Outline.lists_markers [] whole) ?_ tour
  · simp
  · simp
  · simp
  · intro id marker y found
    obtain ⟨z, member, rfl⟩ := List.mem_map.mp marker
    rw [List.mem_filter] at member
    have declared := laid.placed.mem_of_mem (Outline.mem_nodes_of_mem_roots member.1)
      (by simpa using member.2)
    obtain rfl := Option.some.inj (found.symm.trans (laid.node?_eq declared (.refl _)))
    exact ⟨declared, by simp⟩

end

end DesignMetrics
