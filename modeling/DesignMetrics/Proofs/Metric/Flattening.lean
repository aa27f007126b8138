import DesignMetrics.Proofs.Metric.UnitOrder
import DesignMetrics.Proofs.Traversal.Flattening

/-! Analyzers do not see how chains of conditions are nested.
Nothing is referred to by the statement that holds a chain, so the analyzers of coupling, counts and
dependencies go through the same states with it and without it. Complexities are counted from bodies, and
joining two chains keeps their number of conditions.
-/

namespace DesignMetrics

-- References

theorem Stmt.caughtTypes_flattened (s : Stmt) : s.flattened.caughtTypes = s.caughtTypes := by
  have joined (t : Stmt) : t.flattenIf.caughtTypes = t.caughtTypes := by cases t <;> rfl
  exact (joined _).trans s.caughtTypes_inner

/-- What is visited refers to the same types with all chains in it flattened. -/
theorem Registry.references_flattened (r : Registry) (current : Option TypeNode) (v : Visit)
    : r.references current v.flattened = r.references current v := by
  cases v with
  | stmt s => simp only [Visit.flattened, references, s.caughtTypes_flattened]
  | expr e =>
    simp only [Visit.flattened, references, Expr.flattened, Expr.classOperand?_rewrite]
    cases e.classOperand? with
    | none => rfl
    | some owner => cases owner <;> rfl
  | _ => rfl

theorem Coupling.enter_flattened (r : Registry) (v : Visit) (c : Coupling)
    : c.enter r v.flattened = c.enter r v := by
  have scope : CouplingScope.ofVisit? v.flattened = CouplingScope.ofVisit? v := by cases v <;> rfl
  have opened : openScope v.flattened = openScope v := by
    funext c
    simp only [openScope, scope]
  have recorded : initRecord v.flattened = initRecord v := by cases v <;> rfl
  have noted : noteCall v.flattened = noteCall v := by
    cases v with
    | expr e =>
      funext c
      unfold noteCall
      cases c.invokes with
      | nil => rfl
      | cons => simp only [Visit.flattened, Expr.flattened, Expr.signature?_rewrite]
    | _ => rfl
  simp only [enter, opened, recorded, noted, r.references_flattened]

theorem Dependency.enter_flattened (r : Registry) (v : Visit) (d : Dependency)
    : d.enter r v.flattened = d.enter r v := by
  have prepared : prepare r v.flattened = prepare r v := by cases v <;> rfl
  have reached (current : Option TypeNode) : targets r current v.flattened = targets r current v := by
    have referred := r.references_flattened current v
    cases v with
    | type t => rfl
    | _ => exact referred
  simp only [enter, prepared, reached]

-- Analyzers that do not count decisions

theorem Visit.eq_of_isIf {v : Visit} (h : v.isIf)
    : ∃ cond body elseIfs otherwise, v = .stmt (.ifElse cond body elseIfs otherwise) := by
  cases v <;> simp only [isIf, Bool.false_eq_true] at h
  rename_i s
  cases s <;> simp only [Stmt.isIf, Bool.false_eq_true] at h
  exact ⟨_, _, _, _, rfl⟩

variable {e : Event}

theorem Event.seen?_of_isIf (h : e.visit.isIf) : e.seen? Visit.flattened? = none := by
  cases e <;> simp_all [seen?, Visit.flattened?, visit]

theorem Event.seen?_of_not_isIf (h : e.visit.isIf = false)
    : e.seen? Visit.flattened? = some (e.map Visit.flattened) := by
  cases e <;> simp_all [seen?, Visit.flattened?, visit, Event.map]

namespace Analyzer

variable {κ : Type} [CacheStore κ] {r r' : Registry} {a : Analyzer κ}

theorem observe_flattened (kind : a.kind ≠ .complexity) (e : Event)
    : a.observe r (e.map Visit.flattened) = a.observe r e := by
  cases a with
  | complexity => exact absurd rfl kind
  | coupling c =>
    cases e with
    | enter v => simp only [Event.map, observe, Coupling.observe, c.enter_flattened r v]
    | leave v => cases v <;> rfl
  | dependency d =>
    cases e with
    | enter v => simp only [Event.map, observe, Dependency.observe, d.enter_flattened r v]
    | leave v => cases v <;> rfl
  | nodeCount c =>
    cases e with
    | enter v | leave v => cases v <;> rfl

theorem observe_of_isIf (kind : a.kind ≠ .complexity) (h : e.visit.isIf)
    : a.observe r e = .ok a := by
  cases e with
  | enter v | leave v =>
    obtain ⟨cond, body, elseIfs, otherwise, rfl⟩ : ∃ cond body elseIfs otherwise, v = _ :=
      Visit.eq_of_isIf h
    cases a with
    | complexity => exact absurd rfl kind
    | _ => rfl

theorem kind_of_observe {b : Analyzer κ} (h : a.observe r e = .ok b) : b.kind = a.kind := by
  cases a with
  | nodeCount c =>
    simp only [observe] at h
    cases step : c.observe r e <;> simp only [step, Except.map, reduceCtorEq, Except.ok.injEq] at h
    rw [← h]
    rfl
  | _ =>
    obtain rfl := Except.ok.inj h
    rfl

/-- An analyzer goes through the same states if it is told only what is seen of a walk. -/
theorem observeAll_seen (kind : a.kind ≠ .complexity) (events : List Event)
    : Traversal.observeAll r (events.filterMap (Event.seen? Visit.flattened?)) a
      = Traversal.observeAll r events a := by
  induction events generalizing a with
  | nil => rfl
  | cons e events ih =>
    have rest : (a.observe r e).bind
          (Traversal.observeAll r (events.filterMap (Event.seen? Visit.flattened?)))
        = (a.observe r e).bind (Traversal.observeAll r events) := by
      cases taken : a.observe r e with
      | error => rfl
      | ok b => exact ih (by rw [kind_of_observe taken]; exact kind)
    refine Eq.trans ?_ rest
    cases hidden : e.visit.isIf with
    | true =>
      rw [List.filterMap_cons_none (Event.seen?_of_isIf hidden), observe_of_isIf kind hidden]
      rfl
    | false =>
      rw [List.filterMap_cons_some (Event.seen?_of_not_isIf hidden), ← observe_flattened kind e]
      rfl

/-- Walks that are seen alike lead an analyzer to the same state. -/
theorem observeAll_flattened (h : r.Reshaped r') {walk walk' : Walk}
    (flat : walk.flattened = walk'.flattened) (kind : a.kind ≠ .complexity)
    : Traversal.observeAll r walk.events a = Traversal.observeAll r' walk'.events a := by
  have events : walk.events.filterMap (Event.seen? Visit.flattened?)
      = walk'.events.filterMap (Event.seen? Visit.flattened?) := congrArg Walk.events flat
  calc Traversal.observeAll r walk.events a
    _ = Traversal.observeAll r (walk.events.filterMap (Event.seen? Visit.flattened?)) a :=
      (observeAll_seen kind _).symm
    _ = Traversal.observeAll r' (walk'.events.filterMap (Event.seen? Visit.flattened?)) a := by
      rw [events]
      exact observeAll_sameTypes h.sameTypes rfl a
    _ = Traversal.observeAll r' walk'.events a := observeAll_seen kind _

end Analyzer

-- Refusals

namespace Analyzer

variable {κ : Type} [CacheStore κ] {r r' : Registry}

def Matches (a b : Analyzer κ) : Prop :=
  a.kind ≠ .complexity ∧ a = b ∨ a.kind = .complexity ∧ b.kind = .complexity

omit [CacheStore κ] in
theorem matches_start (cache cache' : κ) (kind : AnalyzerKind)
    : (start cache kind).Matches (start cache' kind) := by
  cases kind with
  | complexity => exact .inr ⟨rfl, rfl⟩
  | _ => exact .inl ⟨nofun, rfl⟩

theorem exists_observe_complexity {a : Analyzer κ} (kind : a.kind = .complexity) (e : Event)
    : ∃ a', a.observe r e = .ok a' ∧ a'.kind = .complexity := by
  cases a <;> simp only [Analyzer.kind, reduceCtorEq] at kind
  exact ⟨_, rfl, rfl⟩

/-- Analyzers that match take an event alike, if one of them is told it flattened. -/
theorem Matches.observe (h : r.SameTypes r') {a b : Analyzer κ} (same : a.Matches b) (e : Event)
    : (∃ fault, a.observe r e = .error fault ∧ b.observe r' (e.map Visit.flattened) = .error fault)
      ∨ ∃ a' b', a.observe r e = .ok a' ∧ b.observe r' (e.map Visit.flattened) = .ok b'
          ∧ a'.Matches b' := by
  rcases same with ⟨plain, rfl⟩ | ⟨left, right⟩
  · rw [observe_flattened plain, ← observe_sameTypes h]
    cases taken : a.observe r e with
    | error fault => exact .inl ⟨fault, rfl, rfl⟩
    | ok a' => exact .inr ⟨a', a', rfl, rfl, .inl ⟨by rwa [kind_of_observe taken], rfl⟩⟩
  · obtain ⟨a', taken, left'⟩ := exists_observe_complexity left e
    obtain ⟨b', taken', right'⟩ := exists_observe_complexity right (e.map Visit.flattened)
    exact .inr ⟨a', b', taken, taken', .inr ⟨left', right'⟩⟩

theorem Matches.observe_of_isIf {a b : Analyzer κ} (same : a.Matches b) (hidden : e.visit.isIf)
    : ∃ a', a.observe r e = .ok a' ∧ a'.Matches b := by
  rcases same with ⟨plain, rfl⟩ | ⟨left, right⟩
  · exact ⟨a, Analyzer.observe_of_isIf plain hidden, .inl ⟨plain, rfl⟩⟩
  · obtain ⟨a', taken, left'⟩ := exists_observe_complexity left e
    exact ⟨a', taken, .inr ⟨left', right⟩⟩

variable {as bs : List (Analyzer κ)}

theorem tell_matches (h : r.SameTypes r') (same : List.Forall₂ Matches as bs) (e : Event)
    : (Traversal.tell r e as).2 = (Traversal.tell r' (e.map Visit.flattened) bs).2
      ∧ List.Forall₂ Matches (Traversal.tell r e as).1
          (Traversal.tell r' (e.map Visit.flattened) bs).1 := by
  induction same with
  | nil => exact ⟨rfl, .nil⟩
  | @cons a b as bs first rest ih =>
    have name : Observer.name a = Observer.name b := by
      rcases first with ⟨_, rfl⟩ | ⟨left, right⟩
      · rfl
      · exact congrArg AnalyzerKind.name (left.trans right.symm)
    rcases first.observe h e with ⟨fault, left, right⟩ | ⟨a', b', left, right, next⟩
    · have left : Observer.observe r e a = .error fault := left
      have right : Observer.observe r' (e.map Visit.flattened) b = .error fault := right
      simp only [Traversal.tell, left, right, name]
      exact ⟨trivial, .cons first rest⟩
    · have left : Observer.observe r e a = .ok a' := left
      have right : Observer.observe r' (e.map Visit.flattened) b = .ok b' := right
      simp only [Traversal.tell, left, right]
      exact ⟨ih.1, .cons next ih.2⟩

theorem tell_of_isIf (same : List.Forall₂ Matches as bs) (hidden : e.visit.isIf)
    : (Traversal.tell r e as).2 = none ∧ List.Forall₂ Matches (Traversal.tell r e as).1 bs := by
  induction same with
  | nil => exact ⟨rfl, .nil⟩
  | @cons a b as bs first rest ih =>
    obtain ⟨a', taken, next⟩ := first.observe_of_isIf (r := r) hidden
    have taken : Observer.observe r e a = .ok a' := taken
    simp only [Traversal.tell, taken]
    exact ⟨ih.1, .cons next ih.2⟩

/-- The first refusal is the same, and at the same place, if analyzers are told only what is seen. -/
theorem fault_tellAll_seen (h : r.SameTypes r') (same : List.Forall₂ Matches as bs)
    (events : List Event) (before : String)
    : (Traversal.tellAll r before events as).fault
      = (Traversal.tellAll r' before (events.filterMap (Event.seen? Visit.flattened?)) bs).fault := by
  induction events generalizing as bs before with
  | nil => rfl
  | cons e events ih =>
    cases hidden : e.visit.isIf with
    | true =>
      obtain ⟨taken, next⟩ := tell_of_isIf (r := r) same hidden
      have place : e.place before = before := by
        obtain ⟨_, _, _, _, found⟩ := Visit.eq_of_isIf hidden
        rw [Event.place, found]
        rfl
      rw [List.filterMap_cons_none (Event.seen?_of_isIf hidden), Traversal.tellAll, place]
      generalize Traversal.tell r e as = told at taken next
      obtain ⟨as', refusal⟩ := told
      obtain rfl : refusal = none := taken
      exact ih next before
    | false =>
      obtain ⟨taken, next⟩ := tell_matches h same e
      have place : (e.map Visit.flattened).place before = e.place before := by
        cases e with
        | enter v | leave v => cases v <;> rfl
      rw [List.filterMap_cons_some (Event.seen?_of_not_isIf hidden), Traversal.tellAll,
        Traversal.tellAll, place]
      generalize Traversal.tell r e as = told, Traversal.tell r' (e.map Visit.flattened) bs = told'
        at taken next
      obtain ⟨as', refusal⟩ := told
      obtain ⟨bs', refusal'⟩ := told'
      obtain rfl : refusal = refusal' := taken
      cases refusal with
      | some cause => rfl
      | none => exact ih next (e.place before)

end Analyzer

-- Decisions

open ComplexityRecord (sum ofPart)

section

variable {f : Stmt → Stmt}

theorem Expr.decisions_rewrite (e : Expr) : (e.rewrite f).decisions = e.decisions := by
  cases e <;> rfl

theorem Expr.isShortCircuit_rewrite (e : Expr)
    : (e.rewrite f).isShortCircuit = e.isShortCircuit := by
  cases e <;> rfl

theorem Stmt.decisions_inner (s : Stmt) : (s.inner f).decisions = s.decisions := by
  cases s with
  | ifElse => simp [inner, decisions]
  | switch subject cases =>
    simp [inner, decisions, List.countP_map, Case.rewrite_eq, Function.comp_def]
  | tryCatch => simp [inner, decisions]
  | _ => rfl

theorem ofPart_inner (p : Part) : ofPart (p.inner f) = ofPart p := by
  cases p with
  | stmt s => simp only [Part.inner, ofPart, ComplexityRecord.ofVisit, s.decisions_inner]
  | expr e =>
    simp only [Part.inner, ofPart, ComplexityRecord.ofVisit, e.decisions_rewrite,
      e.isShortCircuit_rewrite]

end

/-- Two chains have as many conditions when they are joined. -/
theorem Stmt.tally_flattenIf (s : Stmt) : (Part.stmt s.flattenIf).tally = (Part.stmt s).tally := by
  rcases s.flattenIf_cases with same | ⟨cond, body, elseIfs, cond', body', elseIfs', last, rfl, same⟩
  · rw [same]
  · obtain ⟨before, nested, joined⟩ := parts_joined cond body elseIfs cond' body' elseIfs' last
    have children (t : Stmt) : (Part.stmt t).children = t.parts := rfl
    have conditions : (1 + elseIfs.length) + (1 + elseIfs'.length)
        = 1 + (elseIfs ++ ⟨cond', body'⟩ :: elseIfs').length := by
      simp only [List.length_append, List.length_cons]
      omega
    have own : ofPart (.stmt (ifElse cond body (elseIfs ++ ⟨cond', body'⟩ :: elseIfs') last))
        = (ofPart (.stmt (ifElse cond body elseIfs (some [ifElse cond' body' elseIfs' last])))).add
            (ofPart (.stmt (ifElse cond' body' elseIfs' last))) := by
      simp only [ofPart, ComplexityRecord.ofVisit, decisions, ComplexityRecord.add, conditions]
    rw [same, Part.tally_eq, Part.tally_eq (.stmt (ifElse _ _ _ (some _))), children, children, nested,
      joined, own]
    simp only [List.map_append, ComplexityRecord.sum_append, List.map_cons, List.map_nil,
      ComplexityRecord.sum_cons, ComplexityRecord.sum_nil, ComplexityRecord.add_zero]
    rw [Part.tally_eq (.stmt (ifElse cond' _ _ _)), children, ComplexityRecord.add_assoc,
      ComplexityRecord.add_left_comm (sum (before.map Part.tally))]

/-- What a part adds does not depend on how chains are nested in it. The induction is on the size of the
part.
-/
theorem Part.tally_flattened (p : Part) : (p.rewrite Stmt.flattenIf).tally = p.tally := by
  have joined : (p.rewrite Stmt.flattenIf).tally = (p.inner Stmt.flattenIf).tally := by
    cases p with
    | expr e => rfl
    | stmt s => exact (s.inner Stmt.flattenIf).tally_flattenIf
  have children : (p.children.map (rewrite Stmt.flattenIf)).map tally = p.children.map tally := by
    rw [List.map_map]
    exact List.map_congr_left fun q child =>
      have := Part.sizeOf_lt_of_mem_children child
      tally_flattened q
  rw [joined, tally_eq, tally_eq p, ofPart_inner, children_inner, children]
termination_by sizeOf p

theorem tallyOf_flattened (body : List Stmt) : tallyOf (body.map Stmt.flattened) = tallyOf body := by
  rw [tallyOf, tallyOf, List.map_map]
  exact congrArg sum (List.map_congr_left fun s _ => (Part.stmt s).tally_flattened)

/-- A callable that is left has the same result if its body has been flattened. -/
theorem Event.result?_seen (e : Event)
    : (e.seen? Visit.flattened?).bind Event.result? = e.result? := by
  cases e with
  | enter v => cases hidden : v.isIf <;> simp [seen?, Visit.flattened?, hidden, result?]
  | leave v =>
    cases v with
    | method m =>
      have body : m.flattened.body.getD [] = (m.body.getD []).map Stmt.flattened := by
        cases code : m.body <;> simp [MethodNode.flattened, code]
      have record : ComplexityRecord.ofBody (m.flattened.body.getD []) = .ofBody (m.body.getD []) := by
        rw [ComplexityRecord.ofBody, body, tallyOf_flattened]
        rfl
      exact congrArg (fun c => some (m.id, c)) record
    | function f =>
      have record : ComplexityRecord.ofBody f.flattened.body = .ofBody f.body := by
        rw [ComplexityRecord.ofBody, FunctionNode.flattened, tallyOf_flattened]
        rfl
      exact congrArg (fun c => some (f.id, c)) record
    | stmt s =>
      cases hidden : s.isIf <;> simp [seen?, Visit.flattened?, Visit.isIf, hidden, result?] <;> rfl
    | _ => rfl

/-- No callable of source files comes from the cache. -/
theorem Walk.uncached_units (files : List (SourceFile × String)) (us : List CompilationUnit)
    : Complexity.Uncached (units (bindAll ∅ files).2 us).events := by
  intro v callable entered named
  obtain ⟨n, there, rfl⟩ := (visits_registered _ _ us v entered).exists_node named
  obtain ⟨_, _, _, stands⟩ := stands_of_mem_bindAll there
  have bare := n.visit.ofVisit?_bare
  rw [n.visit_bare, stands.bare_eq, named] at bare
  exact congrArg Callable.cached (Option.some.inj bare)

/-- Complexities are the same in walks that are seen alike. -/
theorem Complexity.results_flattened {κ : Type} [CacheStore κ] {walk walk' : Walk}
    (flat : walk.flattened = walk'.flattened)
    (tallied : Tallied [] walk.events) (uncached : Uncached walk.events)
    (tallied' : Tallied [] walk'.events) (uncached' : Uncached walk'.events) (cache cache' : κ)
    : (walk.events.foldl (fun c e => c.observe e) ({ cache } : Complexity κ)).results
      = (walk'.events.foldl (fun c e => c.observe e) ({ cache := cache' } : Complexity κ)).results := by
  have seen (w : Walk)
      : w.events.filterMap Event.result? = w.flattened.events.filterMap Event.result? := by
    simp only [Walk.flattened, Walk.seen, List.filterMap_filterMap, Event.result?_seen]
  rw [results_of_uncached uncached tallied, results_of_uncached uncached' tallied', seen, seen walk', flat]

-- Results

section

variable {κ : Type} [CacheStore κ] {r r' : Registry}

theorem Registry.Reshaped.declaredIds (h : r.Reshaped r')
    : (r.toList.filter Node.isUserDefined).map Node.id
      = (r'.toList.filter Node.isUserDefined).map Node.id := by
  rw [Node.seeing_flattened.declaredIds, h.same, ← Node.seeing_flattened.declaredIds]

/-- What an analyzer tells in the end. -/
theorem Analyzer.resultOf_flattened (h : r.Reshaped r') {walk walk' : Walk}
    (flat : walk.flattened = walk'.flattened)
    (tallied : Tallied [] walk.events) (uncached : Complexity.Uncached walk.events)
    (tallied' : Tallied [] walk'.events) (uncached' : Complexity.Uncached walk'.events)
    (cache cache' : κ) (kind : AnalyzerKind)
    : (Traversal.observeAll r walk.events (start cache kind)).map (Run.resultOf r)
      = (Traversal.observeAll r' walk'.events (start cache' kind)).map (Run.resultOf r') := by
  have asked (a : Analyzer κ) : Run.resultOf r a = Run.resultOf r' a := by
    simp only [Run.resultOf, Run.askedIds, h.declaredIds]
  have plain (other : kind ≠ .complexity) (same : start cache kind = start cache' kind)
      : (Traversal.observeAll r walk.events (start cache kind)).map (Run.resultOf r)
        = (Traversal.observeAll r' walk'.events (start cache' kind)).map (Run.resultOf r') := by
    rw [same, observeAll_flattened h flat (by cases kind <;> exact other), funext asked]
  cases kind with
  | complexity =>
    have results := Complexity.results_flattened flat tallied uncached tallied' uncached' cache cache'
    have told {c c' : Complexity κ} (same : c.results = c'.results)
        : Run.resultOf r (.complexity c) = Run.resultOf r' (.complexity c') := by
      obtain ⟨records, total⟩ : c.records = c'.records ∧ c.total = c'.total := Prod.mk.inj same
      rw [asked]
      simp only [Run.resultOf, Run.askedIds, nodeIds, nodeMetrics, projectMetrics, relations, kind,
        Complexity.nodeIds, Complexity.nodeMetrics, Complexity.projectMetrics, records, total]
    rw [start, start, observeAll_complexity, observeAll_complexity]
    exact congrArg Except.ok (told results)
  | coupling | nodeCount | dependency => exact plain (by simp) rfl

/-- Analyzers come to the same end and tell the same after walks that are seen alike. -/
theorem Analyzer.run_flattened (h : r.Reshaped r') {us us' : List CompilationUnit}
    (flat : (Walk.units r us).flattened = (Walk.units r' us').flattened)
    (uncached : Complexity.Uncached (Walk.units r us).events)
    (uncached' : Complexity.Uncached (Walk.units r' us').events) (kinds : List AnalyzerKind)
    (cache cache' : κ)
    : (run r us kinds cache).1.fault = (run r' us' kinds cache').1.fault
      ∧ ((run r us kinds cache).1.fault = none →
          (run r us kinds cache).1.observers.map (Run.resultOf r)
            = (run r' us' kinds cache').1.observers.map (Run.resultOf r')) := by
  have events : (Walk.units r us).events.filterMap (Event.seen? Visit.flattened?)
      = (Walk.units r' us').events.filterMap (Event.seen? Visit.flattened?) := congrArg Walk.events flat
  have ends : (Walk.units r us).fault = (Walk.units r' us').fault :=
    show (Walk.units r us).flattened.fault = (Walk.units r' us').flattened.fault by rw [flat]
  have matched (cache cache' : κ)
      : List.Forall₂ Matches (kinds.map (start cache)) (kinds.map (start cache')) := by
    rw [List.forall₂_map_left_iff, List.forall₂_map_right_iff]
    exact List.forall₂_same.mpr fun kind _ => matches_start cache cache' kind
  have faults : (run r us kinds cache).1.fault = (run r' us' kinds cache').1.fault := by
    simp only [run, Traversal.follow_eq, ends]
    rw [fault_tellAll_seen h.sameTypes (matched cache cache'), events,
      ← fault_tellAll_seen (.refl r') (matched cache' cache')]
  refine ⟨faults, fun fine => ?_⟩
  have told (kind : AnalyzerKind) := resultOf_flattened h flat (Walk.tallied_units r us) uncached
    (Walk.tallied_units r' us') uncached' cache cache' kind
  have states (r : Registry) (us : List CompilationUnit) (cache : κ)
      (fine : (run r us kinds cache).1.fault = none)
      : ((run r us kinds cache).1.observers.map (Run.resultOf r)).map Except.ok
        = kinds.map fun kind => (Traversal.observeAll r (Walk.units r us).events
            (start cache kind)).map (Run.resultOf r) := by
    have each := congrArg (List.map (Except.map (Run.resultOf r))) (Traversal.follow_states fine)
    rw [List.map_map, List.map_map, List.map_map] at each
    rw [List.map_map]
    exact each
  have left := states r us cache fine
  have right := states r' us' cache' (faults.symm.trans fine)
  have same := left.trans ((List.map_congr_left fun kind _ => told kind).trans right.symm)
  exact (List.map_inj_right fun _ _ => Except.ok.inj).mp same

end

end DesignMetrics
