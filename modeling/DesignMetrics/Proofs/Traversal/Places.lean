import Mathlib.Data.List.Induction
import DesignMetrics.Proofs.Binding.Files
import DesignMetrics.Proofs.Traversal.Nesting
import DesignMetrics.Proofs.Traversal.Observers
import DesignMetrics.Traversal.Recorder

/-! The place of a refusal.
A refusal is reported at the place that was entered or left last. If that was left last, it is closed,
and the place that is reported is a wrong one, unless it has the same text as the path of the unit.
-/

namespace DesignMetrics

-- What is open and what came last

def Event.after (chain : List Visit) : Event → List Visit
  | .enter v => v :: chain
  | .leave _ => chain.tail

def openAfter (chain : List Visit) (events : List Event) : List Visit := events.foldl Event.after chain

variable {v : Visit} {chain : List Visit} {x : Node} {r : Registry}

namespace Chained

variable {last : List Visit} {events : List Event}

theorem openAfter_eq (h : Chained chain events last) : openAfter chain events = last := by
  induction h with
  | nil => rfl
  | enter _ _ ih => exact ih
  | leave _ ih => exact ih

theorem rooted (h : Chained chain events last) (rooted : Rooted chain) : Rooted last := by
  induction h with
  | nil => exact rooted
  | enter root _ ih => exact ih (rooted.cons root)
  | leave _ ih => exact ih rooted.tail

/-- What is open has been open or has been entered. -/
theorem entered_of_mem (h : Chained chain events last) (member : v ∈ last)
    : v ∈ chain ∨ .enter v ∈ events := by
  induction h with
  | nil => exact .inl member
  | enter _ _ ih =>
    rcases ih member with inside | later
    · rcases List.mem_cons.mp inside with rfl | outside
      · exact .inr List.mem_cons_self
      · exact .inl outside
    · exact .inr (List.mem_cons_of_mem _ later)
  | leave _ ih => exact (ih member).imp (List.mem_cons_of_mem _) (List.mem_cons_of_mem _)

end Chained

def innermost? (chain : List Visit) : Option Visit := chain.find? fun v => v.place?.isSome

def lastPlaced? (events : List Event) : Option Event :=
  events.reverse.find? fun e => e.visit.place?.isSome

theorem lastPlaced?_eq_some {events : List Event} {e : Event} (h : lastPlaced? events = some e)
    : e.visit.place?.isSome ∧ ∃ before since, events = before ++ e :: since
      ∧ ∀ f ∈ since, f.visit.place? = none := by
  obtain ⟨placed, since, before, split, none⟩ := List.find?_eq_some_iff_append.mp h
  refine ⟨placed, before.reverse, since.reverse, ?_, fun f member => ?_⟩
  · simpa using congrArg List.reverse split
  · simpa using none f (List.mem_reverse.mp member)

/-- What has no place does not change which place is the innermost one. -/
theorem Chained.innermost?_eq {last : List Visit} {events : List Event}
    (h : Chained chain events last) (unplaced : ∀ e ∈ events, e.visit.place? = none)
    : innermost? last = innermost? chain := by
  induction h with
  | nil => rfl
  | @enter v chain last events _ _ ih | @leave v chain last events _ ih =>
    have here : v.place? = none := unplaced _ List.mem_cons_self
    rw [ih fun e member => unplaced e (List.mem_cons_of_mem _ member)]
    simp [innermost?, here]

/-- What was entered last is the innermost. -/
theorem Chained.innermost?_of_enter {events : List Event} (h : Chained [] events chain)
    (last : lastPlaced? events = some (.enter v))
    : innermost? chain = some v := by
  obtain ⟨placed, before, since, rfl, unplaced⟩ := lastPlaced?_eq_some last
  obtain ⟨middle, _, rest⟩ := h.split
  cases rest with
  | enter _ rest =>
    rw [rest.innermost?_eq unplaced]
    exact List.find?_cons_of_pos placed

-- What is around an event

def host? (chain : List Visit) : Option Node :=
  (innermost? chain).bind fun v => (Event.enter v).entered?

theorem host?_of_entered? (node : (Event.enter v).entered? = some x) (chain : List Visit)
    : host? (v :: chain) = some x := by
  cases v <;> first | exact node | simp [Event.entered?] at node

/-- What is no node is passed over on the way to the host. -/
theorem host?_of_not_entered (none : (Event.enter v).entered? = none)
    (host : host? (v :: chain) = some x) : host? chain = some x := by
  cases v with
  | type | method | function | property => simp [Event.entered?] at none
  | unit u => simp [host?, innermost?, Visit.place?, Event.entered?] at host
  | space | stmt | expr => exact host

/-- Whether an event may have the given visits around it. -/
structure Event.SitsIn (around : List Visit) (e : Event) : Prop where
  grounded : e.visit.isUnit ∨ ∃ u, .unit u ∈ around
  apart {v : Visit} {x : Node} : e = .leave v → (Event.enter v).entered? = some x → host? around ≠ some x

def Event.around (chain : List Visit) : Event → List Visit
  | .enter _ => chain
  | .leave _ => chain.tail

def surrounded (chain : List Visit) : List Event → List (List Visit × Event)
  | [] => []
  | e :: events => (e.around chain, e) :: surrounded (e.after chain) events

theorem surrounded_append (chain : List Visit) (events more : List Event)
    : surrounded chain (events ++ more)
      = surrounded chain events ++ surrounded (openAfter chain events) more := by
  induction events generalizing chain with
  | nil => rfl
  | cons e events ih => exact congrArg (List.cons _) (ih _)

/-- What a tour goes to does not lead to itself. -/
theorem Tours.not_leads_self {id : NodeId} {l : List Node} (tour : Tours r [id] l)
    (found : r.node? id = some x) : ¬Leads r x x := by
  have ends := tour.acc List.mem_cons_self found
  clear found
  induction ends with
  | intro x _ ih => exact fun leads => ih x leads leads

namespace Walk

def Sits (chain : List Visit) (w : Walk) : Prop := ∀ e ∈ surrounded chain w.events, e.2.SitsIn e.1

theorem Sits.andThen {first next : Walk} (nested : Nests chain first) (h : Sits chain first)
    (after : Sits chain next) : Sits chain (first.andThen next) := by
  unfold Walk.andThen
  cases fine : first.fault with
  | some fault => exact h
  | none =>
    obtain ⟨last, chained, back⟩ := nested
    obtain rfl := back fine
    intro e member
    rw [surrounded_append, chained.openAfter_eq] at member
    exact (List.mem_append.mp member).elim (h e) (after e)

/-- What is entered is left in the same place, and only if the walk through it has no fault. -/
theorem Sits.inside {inner : Walk} (nested : Nests (v :: chain) inner) (h : Sits (v :: chain) inner)
    (grounded : v.isUnit ∨ ∃ u, .unit u ∈ chain)
    (apart : inner.fault = none → ∀ x, (Event.enter v).entered? = some x → host? chain ≠ some x)
    : Sits chain (inside v inner) := by
  have entered : (Event.enter v).SitsIn chain := ⟨grounded, nofun⟩
  unfold Walk.inside
  cases fine : inner.fault with
  | some fault => exact List.forall_mem_cons.mpr ⟨entered, h⟩
  | none =>
    obtain ⟨last, chained, back⟩ := nested
    obtain rfl := back fine
    refine List.forall_mem_cons.mpr ⟨entered, fun e member => ?_⟩
    rw [surrounded_append, Event.after, chained.openAfter_eq] at member
    rcases List.mem_append.mp member with inside | own
    · exact h e inside
    · obtain rfl := List.mem_singleton.mp own
      refine ⟨grounded, ?_⟩
      rintro _ x ⟨⟩
      exact apart fine x

end Walk

/-- Through items that are linked by what they stand in. A walk that has no fault is a tour, and nothing
on a tour leads to itself.
-/
theorem Walked.sits {items : List Item} {w : Walk} (h : Walked r items w)
    (fits : ∀ i ∈ items, i.FitsIn chain) (grounded : chain = [] ∨ ∃ u, .unit u ∈ chain)
    (named : ∀ y, host? chain = some y → items.flatMap Item.links ⊆ y.links) : w.Sits chain := by
  induction h generalizing chain with
  | done => simp [Walk.Sits, Walk.done, surrounded]
  | failed => simp [Walk.Sits, Walk.failed, surrounded]
  | bare _ _ ih =>
    exact ih (fun i member => fits i (List.mem_cons_of_mem _ member)) grounded fun y host =>
      List.Subset.trans (List.subset_append_right _ _) (named y host)
  | @visit item v written items inner rest visited within _ inner_ih rest_ih =>
    obtain ⟨here, inside⟩ := visited.fits (fits item List.mem_cons_self)
    have own (y : Node) (host : host? chain = some y) : item.links ⊆ y.links :=
      List.Subset.trans (List.subset_append_left _ _) (named y host)
    have rooted : v.isUnit ∨ ∃ u, .unit u ∈ chain := by
      refine grounded.imp_left fun empty => ?_
      subst empty
      cases v <;> first | rfl | simp [Visit.FitsIn] at here
    have nested := within.nests inside
    refine .andThen (nested.inside here.root) (.inside nested ?_ rooted fun fine x node host => ?_)
      (rest_ih (fun i member => fits i (List.mem_cons_of_mem _ member)) grounded fun y host =>
        List.Subset.trans (List.subset_append_right _ _) (named y host))
    · refine inner_ih inside (.inr ?_) fun y host => ?_
      · rcases rooted with unit | ⟨u, member⟩
        · cases v <;> simp [Visit.isUnit] at unit ⊢
        · exact ⟨u, List.mem_cons_of_mem _ member⟩
      · rcases visited.links with ⟨_, x, _, _, node, links⟩ | ⟨none, links⟩
        · obtain rfl := Option.some.inj ((host?_of_entered? node chain).symm.trans host)
          exact links ▸ List.Subset.refl _
        · exact links ▸ own y (host?_of_not_entered none host)
    · rcases visited.links with ⟨id, y, link, found, same, _⟩ | ⟨none, _⟩
      · obtain rfl := Option.some.inj (node.symm.trans same)
        have tour := (Walked.inside visited within).tours (by simpa using fine)
        rw [List.flatMap_singleton, link] at tour
        exact tour.not_leads_self found ⟨id, own x host (by simp [link]), found⟩
      · simp [none] at node

theorem Walk.sits_unitsTo (r : Registry) (depth : Nat) (units : List CompilationUnit)
    : Sits [] (unitsTo r depth units) :=
  (Walked.unitsTo r depth units).sits (by simp [Item.FitsIn]) (.inl rfl) (by simp [host?, innermost?])

-- Refusals

namespace Traversal

def placeAfter (before : String) (events : List Event) : String :=
  events.foldl (fun place e => e.place place) before

theorem placeAfter_concat (before : String) (events : List Event) (e : Event)
    : placeAfter before (events ++ [e]) = e.place (placeAfter before events) := by
  simp [placeAfter]

/-- It is at the last event that has a place. -/
theorem placeAfter_eq (before : String) (events : List Event)
    : placeAfter before events = ((lastPlaced? events).bind fun e => e.visit.place?).getD before := by
  induction events using List.reverseRecOn with
  | nil => rfl
  | append_singleton events e ih =>
    rw [placeAfter_concat, Event.place, ih]
    cases here : e.visit.place? <;> simp [lastPlaced?, here]

variable {σ φ : Type} [Observer σ φ]

/-- A refusal is reported at the place of the event, or else at the last place before it. -/
theorem tellAll_refused {before : String} {events : List Event} {observers : List σ}
    {name place : String} {cause : φ}
    (refused : (tellAll r before events observers).fault = some (.refused name place cause))
    : ∃ told e after now, events = told ++ e :: after ∧ tellAll r before told observers = ⟨now, none⟩
      ∧ (tell r e now).2 = some (name, cause) ∧ place = placeAfter before (told ++ [e]) := by
  induction events generalizing before observers with
  | nil => simp [tellAll] at refused
  | cons e events ih =>
    rw [tellAll] at refused
    split at refused
    · rename_i outcome
      simp only [Option.some.injEq, TraversalFault.refused.injEq] at refused
      obtain ⟨rfl, rfl, rfl⟩ := refused
      exact ⟨[], e, events, observers, rfl, rfl, by rw [outcome], rfl⟩
    · rename_i next outcome
      obtain ⟨told, f, after, now, rfl, quiet, refusal, at_f⟩ := ih refused
      refine ⟨e :: told, f, after, now, rfl, ?_, refusal, at_f⟩
      rw [tellAll, outcome]
      exact quiet

/-- The refusals of a traversal are those of its events. -/
theorem follow_refused {walk : Walk} {observers : List σ} {name place : String} {cause : φ}
    (refused : (follow r walk observers).fault = some (.refused name place cause))
    : (tellAll r "" walk.events observers).fault = some (.refused name place cause) := by
  rw [follow_eq] at refused
  obtain refusal | ⟨_, broken⟩ := Option.or_eq_some_iff.mp refused
  · exact refusal
  · simp at broken

end Traversal

-- The innermost place

/-- What has a place is a unit or a node. -/
theorem Visit.entered?_of_place? (placed : v.place?.isSome)
    : v.isUnit ∨ ∃ x, (Event.enter v).entered? = some x ∧ v.place? = some x.id.text := by
  cases v with
  | unit u => exact .inl rfl
  | type | method | function | property => exact .inr ⟨_, rfl, rfl⟩
  | _ => simp [place?] at placed

section

variable {depth : Nat} {units : List CompilationUnit} {before after : List Event}
variable {e : Event}
variable (events : (Walk.unitsTo r depth units).events = before ++ e :: after)
variable (opened : Chained [] before chain)

include events opened

theorem sitsIn_around : e.SitsIn (e.around chain) := by
  have all := Walk.sits_unitsTo r depth units
  rw [Walk.Sits, events, surrounded_append, opened.openAfter_eq] at all
  exact all _ (List.mem_append_right _ List.mem_cons_self)

/-- Everything that has no place stands in something that has one. -/
theorem exists_innermost? (unplaced : e.visit.place? = none) : ∃ w, innermost? chain = some w := by
  rcases (sitsIn_around events opened).grounded with unit | ⟨u, around⟩
  · cases visit : e.visit <;> simp_all [Visit.isUnit, Visit.place?]
  · refine Option.isSome_iff_exists.mp (List.find?_isSome.mpr ⟨.unit u, ?_, rfl⟩)
    cases e with
    | enter v => exact around
    | leave v => exact List.mem_of_mem_tail around

/-- A node that is open is registered. -/
theorem mem_of_open (member : v ∈ chain) (node : (Event.enter v).entered? = some x)
    : x ∈ r.toList := by
  rcases opened.entered_of_mem member with none | entered
  · simp at none
  · exact Walk.visits_registered r depth units v (by simp [events, entered]) x node

end

/-- What was left last has another place than what is open around it, unless that is a unit. -/
theorem isUnit_of_leave {depth : Nat} {units : List CompilationUnit} {before after : List Event}
    (begun : (Walk.unitsTo r depth units).events = before ++ after) (opened : Chained [] before chain)
    {w : Visit} (last : lastPlaced? before = some (.leave v)) (inner : innermost? chain = some w)
    (same : w.place? = v.place?) : w.isUnit := by
  obtain ⟨placed, before, since, rfl, unplaced⟩ := lastPlaced?_eq_some last
  obtain ⟨middle, earlier, later⟩ := opened.split
  cases later with
  | @leave _ around _ _ later =>
    rw [List.append_assoc, List.cons_append] at begun
    rw [later.innermost?_eq unplaced] at inner
    have open_w : w ∈ around := List.mem_of_find?_eq_some inner
    rcases Visit.entered?_of_place? placed with unit | ⟨x, node, at_v⟩
    · cases v with
      | unit u => simp [(earlier.rooted .nil).unit] at open_w
      | _ => simp [Event.visit, Visit.isUnit] at unit
    · have placed_w := List.find?_some (p := fun v : Visit => v.place?.isSome) inner
      rcases Visit.entered?_of_place? placed_w with unit | ⟨y, node', at_w⟩
      · exact unit
      · -- Nodes with the same text are the same, and no node is left directly in itself.
        have ids : y.id = x.id := NodeId.text_injective (Option.some.inj (at_w.symm.trans (same.trans at_v)))
        have there := mem_of_open begun earlier List.mem_cons_self node
        have there' := mem_of_open begun earlier (List.mem_cons_of_mem v open_w) node'
        obtain rfl : y = x := Option.some.inj
          ((Registry.node?_of_mem there').symm.trans (ids ▸ Registry.node?_of_mem there))
        refine absurd ?_ ((sitsIn_around begun earlier).apart rfl node)
        rw [Event.around, List.tail_cons, host?, inner]
        exact node'

/-- Something without a place is reported at the innermost open place exactly if that was entered last. -/
theorem innermost?_of_unplaced {depth : Nat} {units : List CompilationUnit}
    {before after : List Event} {e : Event}
    (events : (Walk.unitsTo r depth units).events = before ++ e :: after)
    (unplaced : e.visit.place? = none)
    : ∃ last w, lastPlaced? before = some last ∧ innermost? (openAfter [] before) = some w
      ∧ ∀ place, last.visit.place? = some place
        → (w.place? = some place ↔ last = .enter w ∨ ∃ u, w = .unit u ∧ u.path = place) := by
  obtain ⟨_, whole, _⟩ := Walk.nests_unitsTo r depth units
  obtain ⟨chain, opened, _⟩ := (events ▸ whole).split
  obtain ⟨w, inner⟩ := exists_innermost? events opened unplaced
  obtain ⟨last, found⟩ : ∃ last, lastPlaced? before = some last := by
    refine Option.ne_none_iff_exists'.mp fun none => ?_
    rw [opened.innermost?_eq (by simpa [lastPlaced?] using none)] at inner
    simp [innermost?] at inner
  refine ⟨last, w, found, by rw [opened.openAfter_eq, inner], fun place here => ⟨fun same => ?_, ?_⟩⟩
  · cases last with
    | enter v =>
      rw [opened.innermost?_of_enter found] at inner
      exact .inl (congrArg Event.enter (Option.some.inj inner))
    | leave v =>
      have unit := isUnit_of_leave events opened found inner (same.trans here.symm)
      cases w with
      | unit u => exact .inr ⟨u, rfl, Option.some.inj same⟩
      | _ => simp [Visit.isUnit] at unit
  · rintro (rfl | ⟨u, rfl, path⟩)
    · exact here
    · exact congrArg some path

open Traversal in
/-- A refusal is reported at what was entered or left last. The place of a refusal is that of the event
itself if it has one, and else that of the last event before it that has one. For a namespace, a
statement or an expression this is the innermost open place exactly if the last such event entered it,
or if the innermost place is a unit and its path has the same text.
-/
theorem refused_place_iff {σ φ : Type} [Observer σ φ] (r : Registry) (depth : Nat)
    (units : List CompilationUnit) (observers : List σ) {name place : String} {cause : φ}
    (refused : (follow r (Walk.unitsTo r depth units) observers).fault
      = some (.refused name place cause))
    : ∃ before e after now last,
      (Walk.unitsTo r depth units).events = before ++ e :: after
      ∧ tellAll r "" before observers = ⟨now, none⟩ ∧ (tell r e now).2 = some (name, cause)
      ∧ lastPlaced? (before ++ [e]) = some last ∧ last.visit.place? = some place
      ∧ (e.visit.place? = none → ∃ w, innermost? (openAfter [] before) = some w
        ∧ (w.place? = some place ↔ last = .enter w ∨ ∃ u, w = .unit u ∧ u.path = place)) := by
  obtain ⟨before, e, after, now, events, quiet, refusal, rfl⟩ := tellAll_refused (follow_refused refused)
  have at_last {last : Event} (found : lastPlaced? (before ++ [e]) = some last)
      : last.visit.place? = some (placeAfter "" (before ++ [e])) := by
    obtain ⟨text, there⟩ := Option.isSome_iff_exists.mp (lastPlaced?_eq_some found).1
    simp [placeAfter_eq, found, there]
  cases unplaced : e.visit.place? with
  | some place =>
    have found : lastPlaced? (before ++ [e]) = some e := by simp [lastPlaced?, unplaced]
    exact ⟨before, e, after, now, e, events, quiet, refusal, found, at_last found, by simp [unplaced]⟩
  | none =>
    obtain ⟨last, w, found, inner, reported⟩ := innermost?_of_unplaced events unplaced
    have found' : lastPlaced? (before ++ [e]) = some last := by
      rw [← found]
      simp [lastPlaced?, unplaced]
    exact ⟨before, e, after, now, last, events, quiet, refusal, found', at_last found',
      fun _ => ⟨w, inner, reported _ (at_last found')⟩⟩

def classInMethod : SourceFile :=
  ⟨"a.php", [.classDecl ⟨"A", .none, none, [], [.method ⟨"m", .isPublic, [], none, [],
      some [.echo [.literal "1"], .classDecl ⟨"B", .none, none, [], [], ⟨4, 4⟩⟩, .ret none],
      ⟨2, 6⟩⟩], ⟨1, 7⟩⟩]⟩

def refusingAt (n : Nat) : Outcome Recorder Recorder.Refusal :=
  let bound := bindAll ∅ [(classInMethod, "")]
  Traversal.follow bound.2 (Walk.units bound.2 bound.1) [({ name := "trace", refuseAt := some n } : Recorder)]

open Traversal in
/-- The first statement of the method is reported at the method, which is open. -/
theorem refused_place_iff_firstStatement
    : let bound := bindAll ∅ [(classInMethod, "")]
      (refusingAt 3).fault = some (.refused "trace" "A::m()#m" ⟨"+stmt Echo"⟩)
      ∧ ∃ before e after last, (Walk.units bound.2 bound.1).events = before ++ e :: after
        ∧ lastPlaced? (before ++ [e]) = some last ∧ last.visit.place? = some "A::m()#m"
        ∧ (e.visit.place? = none → ∃ w, innermost? (openAfter [] before) = some w
          ∧ (w.place? = some "A::m()#m" ↔ last = .enter w ∨ ∃ u, w = .unit u ∧ u.path = "A::m()#m")) := by
  intro bound
  have refused : (refusingAt 3).fault = some (.refused "trace" "A::m()#m" ⟨"+stmt Echo"⟩) := by
    with_unfolding_all rfl
  obtain ⟨before, e, after, _, last, events, _, _, placed⟩ :=
    refused_place_iff bound.2 (bound.2.size + 1) bound.1 _ refused
  exact ⟨refused, before, e, after, last, events, placed⟩

/-- The last statement of the method is reported at the class before it, which is not open any more. -/
theorem refused_at_class_left
    : let bound := bindAll ∅ [(classInMethod, "")]
      let events := (Walk.units bound.2 bound.1).events
      (refusingAt 9).fault.map (TraversalFault.message Recorder.Refusal.message)
        = some "analyzer `trace` failed at B#c: refused +stmt Return"
      ∧ events[9]?.map Event.text = some "+stmt Return"
      ∧ (innermost? (openAfter [] (events.take 9))).bind Visit.place? = some "A::m()#m" := by
  decide +kernel

end DesignMetrics
