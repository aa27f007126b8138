import DesignMetrics.Proofs.Lowering.Statements

/-! Lowered files have not been bound.
There are no markers under any rule, so it is enough that all trees obey the rule that has all names.
No marker comes into a file when its statements are grouped under namespaces, either.
-/

namespace DesignMetrics

def NameRule.all : NameRule where
  scopes _ := True
  names _ := True
  spaces := True
  addAlias _ _ := id
  enter _ _ := id

/-- What obeys a rule has no markers. -/
theorem Part.Obeys.marker?_eq_none {rule : NameRule} {p : Part} (h : p.Obeys rule)
    : ∀ q ∈ p.all, q.marker? = none := by
  induction h with
  | @mk p here below ih =>
    intro q member
    rw [Part.all_eq] at member
    rcases List.mem_cons.mp member with rfl | deeper
    · unfold Part.marker?
      split
      · exact here.elim
      · rfl
    · obtain ⟨x, inside, found⟩ := List.mem_flatMap.mp deeper
      refine ih x ?_ q found
      rcases List.mem_append.mp inside with child | held
      · exact List.mem_append_left _ child
      · exact List.mem_append_right _ (List.mem_append_left _ held)

namespace Lowering

/-- The statements that are collected in an open namespace obey a rule, too. -/
theorem yields_program {rule : NameRule} (spaces : rule.spaces) {views : List View}
    (h : ∀ v ∈ views, v.Clean rule) (current : Option NamespaceDecl)
    (clean : ∀ d ∈ current, ∀ s ∈ d.body, s.Obeys rule)
    : Yields rule (program current views) fun body => ∀ s ∈ body, s.Obeys rule := by
  have closed {current : Option NamespaceDecl} (clean : ∀ d ∈ current, ∀ s ∈ d.body, s.Obeys rule)
      : ∀ s ∈ (current.map Stmt.inNamespace).toList, s.Obeys rule := by
    intro s member
    obtain ⟨d, found, rfl⟩ := Option.map_eq_some_iff.mp (Option.mem_toList.mp member)
    exact Stmt.obeys_of_parts spaces rfl rfl (obeyed_stmts.mpr (clean d found))
  induction views generalizing current with
  | nil => exact yields_pure (closed clean)
  | cons v views ih =>
    obtain ⟨first, others⟩ := List.forall_mem_cons.mp h
    unfold program
    split
    · refine (yields_modify fun scope _ => rule.enter scope _ spaces).bind fun _ _ => ?_
      refine yields_get.bind fun scope _ => (ih others _ fun d same => ?_).bind fun rest each => ?_
      · exact Option.some.inj same ▸ by simp
      · exact yields_pure (List.forall_mem_append.mpr ⟨closed clean, each⟩)
    · refine first.stmts.bind fun lowered each => ?_
      split
      · refine ih others _ fun d same => Option.some.inj same ▸ ?_
        exact List.forall_mem_append.mpr ⟨clean _ rfl, each⟩
      · refine (ih others none clean).bind fun rest more => yields_pure ?_
        exact List.forall_mem_append.mpr ⟨each, more⟩

end Lowering

/-- What a tree is lowered to has not been bound. -/
theorem SourceFile.unbound_ofCst (path : String) (bytes : ByteArray) (tree : Cst)
    : (ofCst path bytes tree).Unbound := by
  have clean : (Lowering.view (.ofBytes bytes) none tree).Clean .all :=
    Lowering.clean_view _ none tree fun n _ => ⟨fun _ => trivial, fun _ _ _ => trivial⟩
  have obeys := Lowering.yields_program trivial (clean_phrases clean.children) none (by simp) {} trivial
  intro p found
  obtain ⟨s, member, inside⟩ := List.mem_flatMap.mp found
  exact (obeys.1 s member).marker?_eq_none p inside

end DesignMetrics
