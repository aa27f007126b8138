import Mathlib.Data.List.Forall2
import DesignMetrics.Proofs.Traversal.Nesting
import DesignMetrics.Proofs.Traversal.Observers
import DesignMetrics.Traversal.Recorder

/-! Visits as brackets.
A walk without a fault writes one balanced word for each unit: whatever is entered is left before what
is around it, and between the two everything that is written in it is visited, in the order of the
source.
-/

namespace DesignMetrics

open List (Forall₂)

-- What is visited where

/-- Visits one after the other, each with the visits inside it. -/
inductive VisitForest where
  | done
  | entry (visit : Visit) (inside after : VisitForest)

namespace VisitForest

def events : VisitForest → List Event
  | done => []
  | entry v inside after => .enter v :: (inside.events ++ .leave v :: after.events)

end VisitForest

/-- Whether a forest visits the given items in their order, and in each of them what is written there,
and nothing else. Only bare declarations are passed over.
-/
inductive Follows (r : Registry) : List Item → VisitForest → Prop
  | done : Follows r [] .done
  | bare {s : Stmt} {items : List Item} {forest : VisitForest} (declares : s.isDeclaration)
    : Follows r items forest → Follows r (.part (.stmt s) :: items) forest
  | visit {item : Item} {v : Visit} {written items : List Item} {inside after : VisitForest}
    : Visited r item v written → Follows r written inside → Follows r items after
      → Follows r (item :: items) (.entry v inside after)

-- Words of walks

/-- A walk without a fault writes the word of a forest. -/
theorem Walked.follows {r : Registry} {items : List Item} {w : Walk} (h : Walked r items w)
    (fine : w.fault = none) : ∃ forest, Follows r items forest ∧ w.events = forest.events := by
  induction h with
  | done => exact ⟨.done, .done, rfl⟩
  | bare declares _ ih =>
    obtain ⟨forest, follows, spelled⟩ := ih fine
    exact ⟨forest, .bare declares follows, spelled⟩
  | failed => simp [Walk.failed] at fine
  | @visit item v written items inner rest visited _ _ inner_ih rest_ih =>
    rw [Walk.andThen_fault_iff, Walk.inside_fault] at fine
    obtain ⟨inside, within, spelled⟩ := inner_ih fine.1
    obtain ⟨after, follows, later⟩ := rest_ih fine.2
    refine ⟨.entry v inside after, .visit visited within follows, ?_⟩
    simp [Walk.andThen, Walk.inside, fine, spelled, later, VisitForest.events]

namespace Follows

variable {r : Registry} {items : List Item} {forest : VisitForest}

/-- The word of a forest is balanced. -/
theorem chained (h : Follows r items forest) {chain : List Visit} (fits : ∀ i ∈ items, i.FitsIn chain)
    : Chained chain forest.events chain := by
  induction h generalizing chain with
  | done => exact .nil
  | bare _ _ ih => exact ih fun i member => fits i (List.mem_cons_of_mem _ member)
  | visit visited _ _ inside_ih after_ih =>
    obtain ⟨here, inner⟩ := visited.fits (fits _ List.mem_cons_self)
    have rest := after_ih fun i member => fits i (List.mem_cons_of_mem _ member)
    exact .enter here.root ((inside_ih inner).append (.leave rest))

/-- Whatever a forest enters fits in what is open then, by induction on the forest: the event stands
at the first visit, inside it, or after it.
-/
theorem placed (h : Follows r items forest) {chain : List Visit} (fits : ∀ i ∈ items, i.FitsIn chain)
    {before after : List Event} {v : Visit} (entered : forest.events = before ++ .enter v :: after)
    : ∃ around, Chained chain before around ∧ v.FitsIn r around := by
  induction h generalizing chain before after with
  | done => simp [VisitForest.events] at entered
  | bare _ _ ih => exact ih (fun i member => fits i (List.mem_cons_of_mem _ member)) entered
  | @visit item w written items inside rest visited within _ inside_ih after_ih =>
    obtain ⟨here, inner⟩ := visited.fits (fits _ List.mem_cons_self)
    rw [VisitForest.events] at entered
    cases before with
    | nil =>
      obtain ⟨same, _⟩ := List.cons.inj entered
      obtain rfl := Event.enter.inj same
      exact ⟨chain, .nil, here⟩
    | cons e before =>
      obtain ⟨rfl, split⟩ := List.cons.inj entered
      rcases List.append_eq_append_iff.mp split with ⟨gap, rfl, later⟩ | ⟨gap, earlier, cut⟩
      · cases gap with
        | nil => simp at later
        | cons f gap =>
          obtain ⟨rfl, there⟩ := List.cons.inj later
          obtain ⟨around, after_open, fit⟩ :=
            after_ih (fun i member => fits i (List.mem_cons_of_mem _ member)) there
          exact ⟨around, .enter here.root ((within.chained inner).append (.leave after_open)), fit⟩
      · cases gap with
        | nil => simp at cut
        | cons f gap =>
          obtain ⟨rfl, _⟩ := List.cons.inj cut
          obtain ⟨around, inside_open, fit⟩ := inside_ih inner earlier
          exact ⟨around, .enter here.root inside_open, fit⟩

end Follows

-- Words of units

/-- What the visits of a unit come to: a balanced word over what is written in the unit, in which
everything is entered where it may stand.
-/
structure UnitWord (r : Registry) (u : CompilationUnit) (word : List Event) : Prop where
  inOrder : ∃ forest, Follows r [.unit u] forest ∧ word = forest.events
  closed : Chained [] word []
  placed : ∀ before v after, word = before ++ .enter v :: after
    → ∃ around, Chained [] before around ∧ v.FitsIn r around

theorem Walk.unitWord {r : Registry} {depth : Nat} {u : CompilationUnit}
    (fine : (unit r depth u).fault = none) : UnitWord r u (unit r depth u).events := by
  obtain ⟨forest, follows, spelled⟩ := (Walked.unit r depth u).follows fine
  have fits : ∀ i ∈ [Item.unit u], i.FitsIn [] := by simp [Item.FitsIn]
  rw [spelled]
  exact ⟨⟨forest, follows, rfl⟩, follows.chained fits, fun _ _ _ entered => follows.placed fits entered⟩

open Traversal in
/-- The events of a traversal without a fault are well bracketed. What every observer is told is one
word for each unit, in the order of the units. In it whatever is entered is left before what is around
it, what is written in something is visited there in the order of the source, and methods and
properties are entered only directly in a type with an identifier in its member list that stands for
them.
-/
theorem visits_well_bracketed {σ φ : Type} [Observer σ φ] (r : Registry)
    (units : List CompilationUnit) (observers : List σ)
    (fine : (follow r (Walk.units r units) observers).fault = none)
    : ∃ words, Forall₂ (UnitWord r) units words
      ∧ (follow r (Walk.units r units) observers).observers.map .ok
        = observers.map (observeAll r words.flatten) := by
  have walked := (follow_fault_iff.mp fine).1
  refine ⟨units.map fun u => (Walk.unit r (r.size + 1) u).events, ?_, ?_⟩
  · rw [List.forall₂_map_right_iff, List.forall₂_same]
    intro u member
    exact Walk.unitWord (Walk.each_fault_iff.mp walked u member)
  · rw [follow_states fine, ← List.flatMap_def]
    exact congrArg (fun events => observers.map (observeAll r events)) (Walk.each_events walked)

def sharedMethod : Registry :=
  let place : Location := ⟨"a.php", 1, 1⟩
  let type (kind : TypeKind) (members : List NodeId) : Node :=
    .type { id := .ofKey "A" kind.nodeKind, name := "A", kind, modifiers := .none, userDefined := true
            location := some place, refs := ⟨"", none, []⟩, members, constants := [] }
  Registry.registerAll ∅ [
    type .classType [.method "A" "m", .property "A" "p"],
    type .interfaceType [.method "a" "M"],
    .method { id := .method "A" "m", name := "m", modifiers := .isPublic, location := place
              refs := ⟨"", "A", none, [], []⟩, params := [], body := some [.echo [.literal "1"]]
              fingerprint := "" },
    .property { id := .property "A" "p", name := "p", modifiers := .isPublic, location := place
                refs := ⟨"", "A", none⟩ }]

def bothTypes : CompilationUnit :=
  ⟨"a.php", "", [.declared (.classType "A"),
    .inNamespace ⟨some "N", [.declared (.interfaceType "A")], ⟨2, 2⟩⟩], [], []⟩

open Traversal in
/-- The method is entered in the class and again in the interface. -/
theorem visits_well_bracketed_sharedMethod
    : let outcome := follow sharedMethod (Walk.units sharedMethod [bothTypes])
        [({ name := "recorder", refuseAt := none } : Recorder)]
      outcome.fault.isNone
      ∧ outcome.observers.map Recorder.log
        = [["+unit a.php#u", "+class A#c", "+method A::m()#m", "+stmt Echo", "+expr Literal 1",
          "-expr Literal 1", "-stmt Echo", "-method A::m()#m", "+property A::$p#p", "-property A::$p#p",
          "-class A#c", "+namespace N#n", "+interface A#i", "+method A::m()#m", "+stmt Echo",
          "+expr Literal 1", "-expr Literal 1", "-stmt Echo", "-method A::m()#m", "-interface A#i",
          "-namespace N#n", "-unit a.php#u"]]
      ∧ ∃ words, Forall₂ (UnitWord sharedMethod) [bothTypes] words
        ∧ outcome.observers.map .ok
          = [observeAll sharedMethod words.flatten
              ({ name := "recorder", refuseAt := none } : Recorder)] := by
  intro outcome
  have fine : outcome.fault.isNone := by decide +kernel
  exact ⟨fine, by decide +kernel,
    visits_well_bracketed sharedMethod [bothTypes] _ (Option.isNone_iff_eq_none.mp fine)⟩

end DesignMetrics
