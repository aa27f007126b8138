import DesignMetrics.Proofs.Metric.DoubleEntry
import DesignMetrics.Proofs.Traversal.Folding

/-! Edges under other spellings of references.
A reference to a declared type leads to that type in any spelling, and one to a type that is not
declared to a placeholder in the spelling of the reference. So a scope has the same edges in files that
differ in the spelling of references, as long as each type that is not declared has one spelling.
-/

namespace DesignMetrics

def ScopeCode.folded (s : ScopeCode) : ScopeCode := ⟨s.scope, s.visits.map Visit.folded⟩

namespace ScopeLog

def folded (l : ScopeLog) : ScopeLog :=
  ⟨l.opened.map ScopeCode.folded, l.closed.map (Prod.map ScopeCode.folded id)⟩

/-- The log of an event does not depend on the spelling of references in what was entered before. -/
theorem folded_step (l : ScopeLog) (e : Event)
    : (l.step e).folded = l.folded.step (e.map Visit.folded) := by
  have closed (counts : Bool) : (l.closeScope counts).folded = l.folded.closeScope counts := by
    obtain ⟨_ | ⟨top, rest⟩, closed⟩ := l <;> simp [closeScope, folded]
  cases e with
  | enter v =>
    have scope : CouplingScope.ofVisit? v.folded = CouplingScope.ofVisit? v := by cases v <;> rfl
    have opened : (l.openScope v).folded = l.folded.openScope v.folded := by
      unfold openScope
      rw [scope]
      cases CouplingScope.ofVisit? v <;> simp [folded, ScopeCode.folded]
    have noted (l : ScopeLog) : (l.note v).folded = l.folded.note v.folded := by
      obtain ⟨_ | ⟨top, rest⟩, closed⟩ := l <;> simp [note, folded, ScopeCode.folded]
    exact (noted _).trans (congrArg (note v.folded) opened)
  | leave v =>
    cases v with
    | unit u => simp [step, Event.map, Visit.folded, folded, Function.comp_def, Prod.map]
    | function f => exact closed true
    | type t => exact closed (!t.isInterface)
    | _ => rfl

theorem folded_foldl_step (events : List Event) (l : ScopeLog)
    : (events.foldl step l).folded = (events.map (Event.map Visit.folded)).foldl step l.folded := by
  induction events generalizing l with
  | nil => rfl
  | cons e events ih => rw [List.foldl_cons, ih, folded_step, List.map_cons, List.foldl_cons]

theorem scopes_folded (l : ScopeLog) : l.folded.scopes = l.scopes.map ScopeCode.folded := by
  simp [folded, scopes]

theorem folded_eq {events events' : List Event}
    (same : events.map (Event.map Visit.folded) = events'.map (Event.map Visit.folded))
    : (events.foldl step ⟨[], 0⟩).folded = (events'.foldl step ⟨[], 0⟩).folded := by
  rw [folded_foldl_step, folded_foldl_step, same]

/-- Logs that are the same up to the spelling of references have the same scopes. -/
theorem exists_scope {l l' : ScopeLog} (logs : l.folded = l'.folded) {s : ScopeCode} (h : s ∈ l.scopes)
    : ∃ s' ∈ l'.scopes, s'.scope = s.scope
      ∧ ∀ v ∈ s.visits, ∃ v' ∈ s'.visits, v.folded = v'.folded := by
  have there : s.folded ∈ l'.scopes.map ScopeCode.folded := by
    rw [← scopes_folded, ← logs, scopes_folded]
    exact Multiset.mem_map_of_mem _ h
  obtain ⟨s', member, folds⟩ := Multiset.mem_map.mp there
  obtain ⟨scopes, visits⟩ := ScopeCode.mk.inj folds
  refine ⟨s', member, scopes, fun v inside => ?_⟩
  obtain ⟨v', inside', same⟩ := List.mem_map.mp (visits ▸ List.mem_map_of_mem inside)
  exact ⟨v', inside', same.symm⟩

end ScopeLog

variable {t s : TypeNode} {r : Registry}

/-- A declared type has only one identifier. -/
theorem Tidy.eq_of_foldedId (h : Tidy r) (standing : r.typeAt t.id = t) (there : .type s ∈ r.toList)
    (same : t.foldedId = s.foldedId) : t = s := by
  have alone : r.Respelled r := ⟨rfl, h, h⟩
  obtain ⟨_, folds⟩ := alone.folded_of_mem standing same.symm there
  rw [← standing, ← TypeNode.id_eq_of_folded folds, Registry.typeAt_of_mem there]

def Registry.InheritsOnce (r : Registry) (t : TypeNode) : Prop :=
  ∀ s v, .type s ∈ r.toList → r.Inherits s v → v.foldedId = t.foldedId → v.id = t.id

theorem Tidy.inheritsOnce (h : Tidy r) (there : .type t ∈ r.toList) : r.InheritsOnce t := by
  intro s v source way same
  exact congrArg TypeNode.id (h.eq_of_foldedId (Registry.typeAt_of_inherits
    (Registry.typeAt_of_mem source) way) there same)

section

variable {r' : Registry} (h : r.Respelled r') {l l' : ScopeLog} (logs : l.folded = l'.folded)

include h logs

/-- A scope is coupled to a type in some spelling in both runs, as long as what it inherits from has
one spelling only. -/
theorem ScopeLog.Edge.respelled {scope : CouplingScope} (edge : l.Edge r scope t)
    (once : r.InheritsOnce t) : ∃ t', l'.Edge r' scope t' ∧ t.foldedId = t'.foldedId := by
  obtain ⟨code, member, rfl, ⟨v, inside, refers⟩, unrelated⟩ := edge
  obtain ⟨code', member', scopes, visits⟩ := exists_scope logs member
  obtain ⟨v', inside', folds⟩ := visits v inside
  have currents : (code.scope.type? r).map TypeNode.folded
      = (code.scope.type? r').map TypeNode.folded := by
    unfold CouplingScope.type?
    cases code.scope.typeId? with
    | none => rfl
    | some id => exact h.typeNode? id
  obtain ⟨t', refers', ids⟩ := List.mem_map.mp
    (h.references currents folds ▸ List.mem_map_of_mem (f := TypeNode.foldedId) refers)
  have standing := Registry.typeAt_of_mem_references refers
  have standing' := Registry.typeAt_of_mem_references refers'
  refine ⟨t', ⟨code', member', scopes, ⟨v', inside', scopes ▸ refers'⟩, fun related => ?_⟩, ids.symm⟩
  rw [scopes] at related
  unfold CouplingScope.IsRelated at related unrelated
  cases found' : code.scope.type? r' with
  | none => simp [found'] at related
  | some s' =>
    obtain ⟨s, found, same⟩ := Option.map_eq_some_iff.mp (currents.trans (congrArg _ found'))
    obtain ⟨_, _, at_s⟩ := Option.bind_eq_some_iff.mp found
    obtain ⟨_, _, at_s'⟩ := Option.bind_eq_some_iff.mp found'
    have there := Registry.mem_of_typeNode? at_s
    have there' := Registry.mem_of_typeNode? at_s'
    have sources : s'.foldedId = s.foldedId := by
      rw [TypeNode.foldedId, TypeNode.foldedId, TypeNode.id_eq_of_folded same]
    simp only [found, found', Option.any_some, Coupling.areRelated, Bool.or_eq_true] at related unrelated
    refine unrelated (related.imp (fun below => ?_) fun above => ?_)
    · refine h.symm.isSubtype standing' standing ids sources (fun v way goal => ?_) below
      exact congrArg TypeNode.id
        (h.left.eq_of_foldedId (Registry.typeAt_of_inherits standing way) there goal)
    · exact h.symm.isSubtype (Registry.typeAt_of_mem there') (Registry.typeAt_of_mem there) sources ids
        (fun v way goal => once s v there way goal) above

end

def Registry.referred (r : Registry) (events : List Event) : List TypeNode :=
  r.types.flatMap r.superTypes ++ events.flatMap fun
    | .enter v => r.references none v
    | .leave _ => []

/-- Whether no two types that are looked up differ in case only. -/
def Registry.OneSpelling (r : Registry) (events : List Event) : Prop :=
  ∀ t ∈ r.referred events, ∀ u ∈ r.referred events, t.foldedId = u.foldedId → t.id = u.id

instance (r : Registry) (events : List Event) : Decidable (r.OneSpelling events) :=
  inferInstanceAs (Decidable (∀ t ∈ r.referred events, ∀ u ∈ r.referred events, _ → _))

namespace Registry

variable {events : List Event}

/-- A super type of a registered type is looked up. -/
theorem mem_referred_of_superTypes (there : .type s ∈ r.toList) (above : t ∈ r.superTypes s)
    : t ∈ r.referred events :=
  List.mem_append_left _ (List.mem_flatMap.mpr ⟨s, List.mem_filterMap.mpr ⟨_, there, rfl⟩, above⟩)

/-- The own name of a registered type stands for a registered type. -/
theorem mem_of_type?_qualifiedName (tidy : Tidy r) (there : .type s ∈ r.toList)
    (found : r.type? s.qualifiedName = some t) : .type t ∈ r.toList := by
  obtain ⟨key, named⟩ := tidy.id_eq_of_typeAt (typeAt_of_mem there)
  have own := typeNode?_of_mem there
  rw [TypeNode.qualifiedName, named, NodeId.key_ofKey] at found
  rw [named] at own
  unfold type? at found
  split at found
  · simp at found
  · rcases Option.or_eq_some_iff.mp found with interface | ⟨none, class_⟩
    · exact mem_of_typeNode? interface
    · cases kind : s.kind with
      | interfaceType =>
        rw [kind] at own
        exact absurd (own.symm.trans none) (by simp)
      | classType =>
        rw [kind] at own
        unfold class? typeOfKind? at class_
        split at class_
        · simp at class_
        · obtain rfl : s = t := by simpa [own] using class_
          exact there

/-- What something refers to inside a registered type is registered or looked up. -/
theorem mem_referred_of_references (tidy : Tidy r) {current : Option TypeNode} {v : Visit}
    (known : ∀ s, current = some s → .type s ∈ r.toList) (entered : .enter v ∈ events)
    (refers : t ∈ r.references current v) : .type t ∈ r.toList ∨ t ∈ r.referred events := by
  have named (refers : t ∈ r.references none v) : t ∈ r.referred events :=
    List.mem_append_right _ (List.mem_flatMap.mpr ⟨_, entered, refers⟩)
  have resolved {ref : TypeRef} (found : r.resolveType? current ref = some t)
      : .type t ∈ r.toList ∨ t ∈ r.referred events ∨ r.resolveType? none ref = some t := by
    cases ref with
    | named name => exact .inr (.inr found)
    | selfType | staticType =>
      obtain ⟨s, inside, found⟩ := Option.bind_eq_some_iff.mp found
      exact .inl (mem_of_type?_qualifiedName tidy (known s inside) found)
    | parentType =>
      obtain ⟨s, inside, found⟩ := Option.bind_eq_some_iff.mp found
      exact .inr (.inl (mem_referred_of_superTypes (known s inside)
        (List.mem_append_left _ (Option.mem_toList.mpr found))))
    | scalar => simp [resolveType?] at found
  have operand {ref : ClassRef} (found : r.resolveClass? current ref = some t)
      (refers : r.resolveClass? none ref = some t → RefersTo r none t v)
      : .type t ∈ r.toList ∨ t ∈ r.referred events := by
    cases ref with
    | type ref =>
      rcases resolved found with registered | looked | found
      · exact .inl registered
      · exact .inr looked
      · exact .inr (named (mem_references.mpr (refers found)))
    | dynamic => simp [resolveClass?] at found
  cases mem_references.mp refers with
  | signature name found => exact .inr (named (mem_references.mpr (.signature name found)))
  | property name found => exact .inr (named (mem_references.mpr (.property name found)))
  | caught clause name found =>
    rcases resolved found with registered | looked | found
    · exact .inl registered
    · exact .inr looked
    · exact .inr (named (mem_references.mpr (.caught clause name found)))
  | newObject found => exact operand found .newObject
  | instanceOf found => exact operand found .instanceOf
  | staticCall found => exact operand found .staticCall
  | staticProperty found => exact operand found .staticProperty
  | classConstant found => exact operand found .classConstant

namespace OneSpelling

variable (one : r.OneSpelling events) (tidy : Tidy r)

include one tidy

/-- Types that are registered or looked up are told apart by more than case. -/
theorem id_eq {u : TypeNode} (left : .type t ∈ r.toList ∨ t ∈ r.referred events)
    (standing : r.typeAt t.id = t) (right : .type u ∈ r.toList ∨ u ∈ r.referred events)
    (standing' : r.typeAt u.id = u) (same : t.foldedId = u.foldedId) : t.id = u.id := by
  rcases left with there | looked
  · exact congrArg TypeNode.id (tidy.eq_of_foldedId standing' there same.symm).symm
  · rcases right with there | looked'
    · exact congrArg TypeNode.id (tidy.eq_of_foldedId standing there same)
    · exact one t looked u looked' same

/-- What is registered or looked up is inherited from in one spelling only. -/
theorem inheritsOnce (known : .type t ∈ r.toList ∨ t ∈ r.referred events)
    (standing : r.typeAt t.id = t) : r.InheritsOnce t := by
  intro s v source way same
  have at_v := typeAt_of_inherits (typeAt_of_mem source) way
  refine one.id_eq tidy ?_ at_v known standing same
  rcases way.cases_tail with rfl | ⟨u, before, above⟩
  · exact .inl source
  · rcases typeAt_cases (typeAt_of_inherits (typeAt_of_mem source) before) with there | ⟨_, _, _, rfl⟩
    · exact .inr (mem_referred_of_superTypes there above)
    · simp [superTypes_placeholder] at above

end OneSpelling

end Registry

/-- What a scope in a log is coupled to is registered or looked up. -/
theorem ScopeLog.Edge.target_mem (tidy : Tidy r) {events : List Event} {scope : CouplingScope}
    (edge : (events.foldl step ⟨[], 0⟩).Edge r scope t)
    : (.type t ∈ r.toList ∨ t ∈ r.referred events) ∧ r.typeAt t.id = t := by
  obtain ⟨code, member, rfl, ⟨v, inside, refers⟩, _⟩ := edge
  have known := from_foldl_step (P := fun v => .enter v ∈ events) (l := ⟨[], 0⟩)
    (by simp [scopes]) (fun _ => id) code member
  refine ⟨Registry.mem_referred_of_references tidy (fun s current => ?_) (known.visits v inside) refers,
    Registry.typeAt_of_mem_references refers⟩
  obtain ⟨_, _, found⟩ := Option.bind_eq_some_iff.mp current
  exact Registry.mem_of_typeNode? found

end DesignMetrics
