import Mathlib.Algebra.BigOperators.Group.Multiset.Basic
import Mathlib.Data.Finset.Card
import DesignMetrics.Proofs.Metric.Ownership

/-! What is entered, by scopes.
A log keeps for each scope everything that has been entered in it. It says what the analysis of coupling
knows, after any events.
-/

namespace DesignMetrics

-- Logs

/-- A scope, and what has been entered in it. -/
structure ScopeCode where
  scope : CouplingScope
  visits : List Visit

/-- The open scopes, and the closed ones with whether their calls count. -/
structure ScopeLog where
  opened : List ScopeCode
  closed : Multiset (ScopeCode × Bool)

namespace ScopeLog

def openScope (v : Visit) (l : ScopeLog) : ScopeLog :=
  match CouplingScope.ofVisit? v with
  | some scope => { l with opened := ⟨scope, []⟩ :: l.opened }
  | none => l

def note (v : Visit) (l : ScopeLog) : ScopeLog :=
  match l.opened with
  | [] => l
  | top :: rest => { l with opened := ⟨top.scope, top.visits ++ [v]⟩ :: rest }

def closeScope (counts : Bool) (l : ScopeLog) : ScopeLog :=
  match l.opened with
  | [] => l
  | top :: rest => ⟨rest, (top, counts) ::ₘ l.closed⟩

def step (l : ScopeLog) : Event → ScopeLog
  | .enter v => (l.openScope v).note v
  | .leave (.unit _) => ⟨[], l.closed + (l.opened.map (·, false) : List (ScopeCode × Bool))⟩
  | .leave (.function _) => l.closeScope true
  | .leave (.type t) => l.closeScope (!t.isInterface)
  | .leave _ => l

def scopes (l : ScopeLog) : Multiset ScopeCode := l.opened + l.closed.map Prod.fst

end ScopeLog

-- Edges

def CouplingScope.type? (r : Registry) (s : CouplingScope) : Option TypeNode :=
  s.typeId?.bind r.typeNode?

def CouplingScope.IsRelated (r : Registry) (s : CouplingScope) (t : TypeNode) : Prop :=
  (s.type? r).any (Coupling.areRelated r t)

namespace ScopeCode

def CoupledTo (r : Registry) (s : ScopeCode) (t : TypeNode) : Prop :=
  (∃ v ∈ s.visits, t ∈ r.references (s.scope.type? r) v) ∧ ¬ s.scope.IsRelated r t

def signatures (s : ScopeCode) : List String := s.visits.filterMap Visit.signature?

end ScopeCode

def ScopeLog.Edge (r : Registry) (l : ScopeLog) (scope : CouplingScope) (t : TypeNode) : Prop :=
  ∃ s ∈ l.scopes, s.scope = scope ∧ s.CoupledTo r t

variable {r : Registry} {v : Visit}

theorem ScopeLog.edge_cons {top : ScopeCode} {rest : List ScopeCode}
    {closed : Multiset (ScopeCode × Bool)} {scope : CouplingScope} {t : TypeNode}
    : Edge r ⟨top :: rest, closed⟩ scope t
      ↔ top.scope = scope ∧ top.CoupledTo r t ∨ Edge r ⟨rest, closed⟩ scope t := by
  simp [Edge, scopes, or_and_right, exists_or, or_assoc]

namespace Coupling

/-- Whether the records hold exactly the given edges. -/
structure Holds (edge : CouplingScope → TypeNode → Prop) (c : Coupling) : Prop where
  afferent : ∀ id scope, scope ∈ (c.record id).afferent ↔ ∃ s t, edge s t ∧ s.id = scope ∧ t.id = id
  efferent : ∀ id target, target ∈ (c.record id).efferent ↔ ∃ t, edge (.type id) t ∧ t.id = target

variable {c c' : Coupling} {edge edge' : CouplingScope → TypeNode → Prop}

theorem Holds.congr (h : Holds edge c) (same : ∀ s t, edge s t ↔ edge' s t) : Holds edge' c := by
  obtain rfl : edge = edge' := funext fun s => funext fun t => propext (same s t)
  exact h

theorem Holds.of_record (h : Holds edge c) (same : ∀ id, c'.record id = c.record id)
    : Holds edge c' where
  afferent id scope := by rw [same, h.afferent]
  efferent id target := by rw [same, h.efferent]

theorem record_addAfferent (id scope x : NodeId)
    : (c.addAfferent id scope).record x
      = if x = id then { c.record id with afferent := (c.record id).afferent.insert scope }
        else c.record x := by
  simp only [addAfferent, record, Std.TreeMap.getD_insert, Std.LawfulEqOrd.compare_eq_iff_eq]
  grind

theorem record_addEfferent (id target x : NodeId)
    : (c.addEfferent id target).record x
      = if x = id then { c.record id with efferent := (c.record id).efferent.insert target }
        else c.record x := by
  simp only [addEfferent, record, Std.TreeMap.getD_insert, Std.LawfulEqOrd.compare_eq_iff_eq]
  grind

@[simp] theorem mem_afferent_addAfferent {id scope x s : NodeId}
    : s ∈ ((c.addAfferent id scope).record x).afferent
      ↔ s ∈ (c.record x).afferent ∨ s = scope ∧ x = id := by
  rw [record_addAfferent]
  split <;> simp_all [Std.TreeSet.mem_insert, or_comm, eq_comm (a := s)]

@[simp] theorem efferent_addAfferent (id scope x : NodeId)
    : ((c.addAfferent id scope).record x).efferent = (c.record x).efferent := by
  rw [record_addAfferent]
  split <;> simp_all

@[simp] theorem afferent_addEfferent (id target x : NodeId)
    : ((c.addEfferent id target).record x).afferent = (c.record x).afferent := by
  rw [record_addEfferent]
  split <;> simp_all

@[simp] theorem mem_efferent_addEfferent {id target x t : NodeId}
    : t ∈ ((c.addEfferent id target).record x).efferent
      ↔ t ∈ (c.record x).efferent ∨ t = target ∧ x = id := by
  rw [record_addEfferent]
  split <;> simp_all [Std.TreeSet.mem_insert, or_comm, eq_comm (a := t)]

/-- A new record has no edges. -/
theorem record_initRecord (v : Visit) (id : NodeId) : (c.initRecord v).record id = c.record id := by
  cases v with
  | type t =>
    simp only [initRecord, record, Std.TreeMap.getD_insertIfNew, Std.LawfulEqOrd.compare_eq_iff_eq]
    split
    · rename_i fresh
      rw [Std.TreeMap.getD_eq_fallback (fresh.1 ▸ fresh.2)]
    · rfl
  | _ => rfl

/-- Coupling opens and closes no scope, and notes no call. -/
theorem couple_frame (t : TypeNode)
    : (c.couple r t).scopes = c.scopes ∧ (c.couple r t).invokes = c.invokes
      ∧ (c.couple r t).calls = c.calls := by
  unfold couple
  split
  · exact ⟨rfl, rfl, rfl⟩
  · split
    · exact ⟨rfl, rfl, rfl⟩
    · dsimp only
      split <;> exact ⟨rfl, rfl, rfl⟩

theorem foldl_couple_frame (types : List TypeNode) (c : Coupling)
    : (types.foldl (couple r) c).scopes = c.scopes ∧ (types.foldl (couple r) c).invokes = c.invokes
      ∧ (types.foldl (couple r) c).calls = c.calls := by
  induction types generalizing c with
  | nil => exact ⟨rfl, rfl, rfl⟩
  | cons t types ih =>
    obtain ⟨scopes, invokes, calls⟩ := couple_frame (r := r) (c := c) t
    obtain ⟨scopes', invokes', calls'⟩ := ih (c.couple r t)
    exact ⟨scopes'.trans scopes, invokes'.trans invokes, calls'.trans calls⟩

/-- One more edge, from a scope to a type, is held at both of its ends. -/
theorem Holds.insert (h : Holds edge c) {scope : CouplingScope} {t : TypeNode}
    (afferent : ∀ id s, s ∈ (c'.record id).afferent
      ↔ s ∈ (c.record id).afferent ∨ s = scope.id ∧ id = t.id)
    (efferent : ∀ id u, u ∈ (c'.record id).efferent
      ↔ u ∈ (c.record id).efferent ∨ .type id = scope ∧ u = t.id)
    : Holds (fun s u => edge s u ∨ s = scope ∧ u = t) c' where
  afferent id s := by
    rw [afferent, h.afferent]
    constructor
    · rintro (⟨s, u, old, ids⟩ | ⟨rfl, rfl⟩)
      · exact ⟨s, u, .inl old, ids⟩
      · exact ⟨scope, t, .inr ⟨rfl, rfl⟩, rfl, rfl⟩
    · rintro ⟨s, u, old | ⟨rfl, rfl⟩, rfl, rfl⟩
      · exact .inl ⟨s, u, old, rfl, rfl⟩
      · exact .inr ⟨rfl, rfl⟩
  efferent id u := by
    rw [efferent, h.efferent]
    constructor
    · rintro (⟨u, old, rfl⟩ | ⟨own, rfl⟩)
      · exact ⟨u, .inl old, rfl⟩
      · exact ⟨t, .inr ⟨own, rfl⟩, rfl⟩
    · rintro ⟨u, old | ⟨own, rfl⟩, rfl⟩
      · exact .inl ⟨u, old, rfl⟩
      · exact .inr ⟨own, rfl⟩

variable {rest : List CouplingScope} {top : CouplingScope}

/-- Coupling the innermost scope to a type adds an edge, unless one inherits from the other. -/
theorem holds_couple (h : Holds edge c) (opened : c.scopes = top :: rest) (t : TypeNode)
    : Holds (fun s u => edge s u ∨ s = top ∧ u = t ∧ ¬ s.IsRelated r u) (c.couple r t) := by
  have current : c.currentType? r = top.type? r := by
    simp [currentType?, opened, CouplingScope.type?]
  by_cases related : top.IsRelated r t
  · have same : c.couple r t = c := by
      simp only [couple, opened, List.head?_cons, current]
      exact if_pos related
    rw [same]
    refine h.congr fun s u => ⟨.inl, fun either => either.elim id ?_⟩
    rintro ⟨rfl, rfl, other⟩
    exact absurd related other
  · have added : c.couple r t
        = (top.typeId?.map fun id => (c.addAfferent t.id top.id).addEfferent id t.id).getD
          (c.addAfferent t.id top.id) := by
      have other : (top.type? r).any (areRelated r t) = false := by
        simpa [CouplingScope.IsRelated] using related
      cases own : top.typeId? <;> simp [couple, opened, current, other, own]
    -- Only the scope of a type has a record of its own, so the other end is stored there alone.
    have both : Holds (fun s u => edge s u ∨ s = top ∧ u = t) (c.couple r t) := by
      rw [added]
      apply h.insert
      · intro id s
        cases top.typeId? <;> simp
      · intro id u
        cases top <;> simp [CouplingScope.typeId?, and_comm]
    refine both.congr fun s u => or_congr_right ⟨?_, fun all => ⟨all.1, all.2.1⟩⟩
    rintro ⟨rfl, rfl⟩
    exact ⟨rfl, rfl, related⟩

/-- Coupling the innermost scope to types adds an edge to each one that is no relative. -/
theorem holds_foldl_couple (types : List TypeNode) (h : Holds edge c)
    (opened : c.scopes = top :: rest)
    : Holds (fun s u => edge s u ∨ s = top ∧ u ∈ types ∧ ¬ s.IsRelated r u)
        (types.foldl (couple r) c) := by
  induction types generalizing edge c with
  | nil => exact h.congr (by simp)
  | cons t types ih =>
    refine (ih (holds_couple h opened t) ((couple_frame t).1.trans opened)).congr fun s u => ?_
    grind

/-- A call is noted for the innermost scope, and nothing else changes. -/
theorem noteCall_eq {called : Std.TreeSet String} {others : List (Std.TreeSet String)}
    (opened : c.invokes = called :: others) (v : Visit)
    : c.noteCall v
      = { c with invokes := (v.signature?.map called.insert).getD called :: others } := by
  obtain ⟨scopes, invokes, records, calls, fanout⟩ := c
  obtain rfl : invokes = called :: others := opened
  cases v with
  | expr e => cases call : e.signature? <;> simp [noteCall, Visit.signature?, call]
  | _ => rfl

/-- Without an open scope nothing that is entered counts. -/
theorem entered_of_nothing_open (scopes : c.scopes = []) (invokes : c.invokes = []) (v : Visit)
    (types : List TypeNode) : noteCall v (types.foldl (couple r) c) = c := by
  have coupled : types.foldl (couple r) c = c := by
    induction types with
    | nil => rfl
    | cons t types ih =>
      have same : c.couple r t = c := by simp [couple, scopes]
      rw [List.foldl_cons, same, ih]
  rw [coupled]
  cases v <;> simp [noteCall, invokes]

end Coupling

-- What the analysis of coupling knows

def ScopeLog.calls (l : ScopeLog) : Nat :=
  ((l.closed.filter fun s => s.2).map fun s => s.1.signatures.toFinset.card).sum

/-- Whether a set holds the signatures that are called in the code of a scope. -/
def ScopeCode.Calls (s : ScopeCode) (called : Std.TreeSet String) : Prop :=
  ∀ x, x ∈ called ↔ x ∈ s.signatures

/-- Whether the analysis of coupling knows what is in a log. Both of its stacks go along with the open
scopes of the log.
-/
structure Reflects (r : Registry) (l : ScopeLog) (c : Coupling) : Prop where
  scopes : c.scopes = l.opened.map ScopeCode.scope
  invokes : List.Forall₂ ScopeCode.Calls l.opened c.invokes
  edges : c.Holds (l.Edge r)
  calls : c.calls = l.calls

theorem ScopeCode.Calls.size {s : ScopeCode} {called : Std.TreeSet String} (h : s.Calls called)
    : called.size = s.signatures.toFinset.card := by
  have distinct : called.toList.Nodup :=
    called.distinct_toList.imp fun different same => different (by simp [same])
  have same : called.toList.toFinset = s.signatures.toFinset := by
    ext x
    simp [h x]
  rw [← same, List.toFinset_card_of_nodup distinct, Std.TreeSet.length_toList]

namespace Reflects

variable {l : ScopeLog} {c : Coupling}

section

variable (h : Reflects r l c)

include h

/-- The stacks of the analysis are equally high. -/
theorem length_invokes : c.invokes.length = c.scopes.length := by
  rw [← h.invokes.length_eq, h.scopes, List.length_map]

theorem openScope (v : Visit) : Reflects r (l.openScope v) (c.openScope v) := by
  cases own : CouplingScope.ofVisit? v with
  | none =>
    simp only [ScopeLog.openScope, Coupling.openScope, own]
    exact h
  | some scope =>
    simp only [ScopeLog.openScope, Coupling.openScope, own]
    refine ⟨by simp [h.scopes], .cons (by simp [ScopeCode.Calls, ScopeCode.signatures]) h.invokes, ?_,
      h.calls⟩
    have edges : c.Holds (ScopeLog.Edge r ⟨⟨scope, []⟩ :: l.opened, l.closed⟩) :=
      h.edges.congr fun s t => by simp [ScopeLog.edge_cons, ScopeCode.CoupledTo]
    exact edges.of_record fun _ => rfl

theorem initRecord (v : Visit) : Reflects r l (c.initRecord v) := by
  cases v with
  | type t =>
    have edges := h.edges.of_record fun id => Coupling.record_initRecord (.type t) id
    exact ⟨h.scopes, h.invokes, edges, h.calls⟩
  | _ => exact h

/-- What is entered is noted with its references and its call. -/
theorem note (v : Visit)
    : Reflects r (l.note v)
        (Coupling.noteCall v ((r.references (c.currentType? r) v).foldl (Coupling.couple r) c)) := by
  obtain ⟨opened, closed⟩ := l
  obtain ⟨scopes, invokes, calls⟩ :=
    Coupling.foldl_couple_frame (r := r) (r.references (c.currentType? r) v) c
  cases opened with
  | nil =>
    rw [Coupling.entered_of_nothing_open h.scopes (List.forall₂_nil_left_iff.mp h.invokes)]
    exact h
  | cons top others =>
    obtain ⟨called, rest, agrees, rests, at_c⟩ := List.forall₂_cons_left_iff.mp h.invokes
    have current : c.currentType? r = top.scope.type? r := by
      simp [Coupling.currentType?, h.scopes, CouplingScope.type?]
    have edges :=
      Coupling.holds_foldl_couple (r := r) (r.references (c.currentType? r) v) h.edges h.scopes
    rw [Coupling.noteCall_eq (invokes.trans at_c)]
    -- The references become edges, the call becomes a signature, and no other scope is touched.
    refine ⟨scopes.trans h.scopes, .cons (fun x => ?_) rests, ?_, calls.trans h.calls⟩
    · have code : (ScopeCode.mk top.scope (top.visits ++ [v])).signatures
          = top.signatures ++ v.signature?.toList := by
        cases call : v.signature? <;> simp [ScopeCode.signatures, call]
      rw [code]
      cases v.signature? <;> simp [agrees x, Std.TreeSet.mem_insert, or_comm, eq_comm (a := x)]
    · have noted : Coupling.Holds
          (ScopeLog.Edge r ⟨⟨top.scope, top.visits ++ [v]⟩ :: others, closed⟩)
          ((r.references (c.currentType? r) v).foldl (Coupling.couple r) c) := by
        refine edges.congr fun s t => ?_
        rw [ScopeLog.edge_cons, ScopeLog.edge_cons, current]
        simp only [ScopeCode.CoupledTo, List.mem_append, List.mem_singleton, or_and_right, exists_or,
          exists_eq_left]
        grind
      exact noted.of_record fun _ => rfl

/-- The innermost scope is closed with the calls in its code. -/
theorem closeScope (counts : Bool) : Reflects r (l.closeScope counts) (c.closeScope counts) := by
  obtain ⟨opened, closed⟩ := l
  cases opened with
  | nil =>
    have nothing := List.forall₂_nil_left_iff.mp h.invokes
    refine ⟨by simp [ScopeLog.closeScope, Coupling.closeScope, h.scopes],
      by simp [ScopeLog.closeScope, Coupling.closeScope, nothing], h.edges.of_record fun _ => rfl, ?_⟩
    simpa [ScopeLog.closeScope, Coupling.closeScope, nothing] using h.calls
  | cons top others =>
    obtain ⟨called, rest, agrees, rests, at_c⟩ := List.forall₂_cons_left_iff.mp h.invokes
    constructor
    · simp [ScopeLog.closeScope, Coupling.closeScope, h.scopes]
    · simpa [ScopeLog.closeScope, Coupling.closeScope, at_c] using rests
    · have scopes : ScopeLog.scopes ⟨top :: others, closed⟩
          = ScopeLog.scopes ⟨others, (top, counts) ::ₘ closed⟩ := by
        simp [ScopeLog.scopes, ← Multiset.cons_coe]
      have edges : c.Holds (ScopeLog.Edge r ⟨others, (top, counts) ::ₘ closed⟩) :=
        h.edges.congr fun s t => by rw [ScopeLog.Edge, ScopeLog.Edge, scopes]
      exact edges.of_record fun _ => rfl
    · have calls : c.calls = ScopeLog.calls ⟨top :: others, closed⟩ := h.calls
      cases counts <;>
        simp [ScopeLog.closeScope, Coupling.closeScope, at_c, calls, ScopeLog.calls, agrees.size,
          Nat.add_comm]

/-- An event keeps the analysis in step with the log. -/
theorem observe (e : Event) : Reflects r (l.step e) (c.observe r e) := by
  cases e with
  | enter v => exact ((h.openScope v).initRecord v).note v
  | leave v =>
    cases v with
    | unit u =>
      have edges : c.Holds (ScopeLog.Edge r (l.step (.leave (.unit u)))) := by
        refine h.edges.congr fun s t => ?_
        simp [ScopeLog.step, ScopeLog.Edge, ScopeLog.scopes, or_comm]
      refine ⟨rfl, .nil, edges.of_record fun _ => rfl, h.calls.trans ?_⟩
      simp [ScopeLog.step, ScopeLog.calls, List.filter_map, Function.comp_def]
    | function f => exact h.closeScope true
    | type t => exact h.closeScope (!t.isInterface)
    | _ => exact h

/-- The analysis stays in step with the log through any events. -/
theorem foldl_observe (events : List Event)
    : Reflects r (events.foldl ScopeLog.step l) (events.foldl (fun c e => c.observe r e) c) := by
  induction events generalizing l c with
  | nil => exact h
  | cons e events ih => exact ih (h.observe e)

end

theorem start (r : Registry) : Reflects r ⟨[], 0⟩ {} where
  scopes := rfl
  invokes := .nil
  edges := by constructor <;> simp [Coupling.record, ScopeLog.Edge, ScopeLog.scopes]
  calls := rfl

end Reflects

-- Logs of walks

namespace Owner

def walked (r : Registry) : Owner → List Visit
  | unit u => .unit u :: visitsIn r u.statements
  | function f => .function f :: visitsIn r f.body
  | type t => .type t :: (t.members.filterMap r.node?).flatMap (Node.visits r)

def logged (r : Registry) (D : Owner) : ScopeCode × Bool := (⟨D.scope, D.walked r⟩, D.isCounted)

end Owner

def loggedNodes (r : Registry) (nodes : List Node) : Multiset (ScopeCode × Bool) :=
  ((nodes.filterMap Owner.ofNode?).map (Owner.logged r) : List (ScopeCode × Bool))

@[simp] theorem loggedNodes_append (r : Registry) (nodes more : List Node)
    : loggedNodes r (nodes ++ more) = loggedNodes r nodes + loggedNodes r more := by
  simp [loggedNodes]

namespace Walk

def Logs (r : Registry) (visits : List Visit) (w : Walk) : Prop :=
  w.fault = none → ∀ scope before rest closed,
    w.events.foldl ScopeLog.step ⟨⟨scope, before⟩ :: rest, closed⟩
      = ⟨⟨scope, before ++ visits⟩ :: rest, closed + loggedNodes r (entered w.events)⟩

variable {visits : List Visit}

theorem Logs.andThen {more : List Visit} {first next : Walk} (h : Logs r visits first)
    (after : Logs r more next) : Logs r (visits ++ more) (first.andThen next) := by
  intro fine scope before rest closed
  obtain ⟨here, later⟩ := andThen_fault_iff.mp fine
  simp only [andThen_events here, List.foldl_append, h here, after later]
  simp [add_assoc]

/-- What is entered and opens no scope is in the scope around it. -/
theorem Logs.inside {inner : Walk} (h : Logs r visits inner) (plain : CouplingScope.ofVisit? v = none)
    : Logs r (v :: visits) (inside v inner) := by
  intro fine scope before rest closed
  rw [inside_fault] at fine
  have enters (l : ScopeLog) : l.openScope v = l := by simp [ScopeLog.openScope, plain]
  have leaves (l : ScopeLog) : l.step (.leave v) = l := by
    cases v <;> first | rfl | simp [CouplingScope.ofVisit?] at plain
  have nothing : loggedNodes r (Event.enter v).entered?.toList = 0 := by
    cases v <;> first | rfl | simp [CouplingScope.ofVisit?] at plain
  rw [entered_inside fine, loggedNodes_append, nothing]
  simp only [Walk.inside, fine, List.foldl_cons, List.foldl_append, List.foldl_nil, leaves]
  rw [ScopeLog.step, enters, ScopeLog.note, h fine]
  simp

/-- What is entered and opens a scope has its own code. -/
theorem Logs.scope {n : Node} {D : Owner} {inner : Walk} (h : Logs r visits inner)
    (own : Owner.ofNode? n = some D) (code : D.walked r = n.visit :: visits)
    : Logs r [] (Walk.inside n.visit inner) := by
  intro fine scope before rest closed
  rw [inside_fault] at fine
  obtain ⟨enters, leaves, entered⟩ : (∀ l : ScopeLog, l.step (.enter n.visit)
        = ⟨⟨D.scope, [n.visit]⟩ :: l.opened, l.closed⟩)
      ∧ (∀ l : ScopeLog, l.step (.leave n.visit) = l.closeScope D.isCounted)
      ∧ (Event.enter n.visit).entered? = some n := by
    cases n with
    | function f | type t =>
      obtain rfl := Option.some.inj own
      exact ⟨fun _ => rfl, fun _ => rfl, rfl⟩
    | _ => simp [Owner.ofNode?] at own
  have logged : loggedNodes r [n] = {(⟨D.scope, n.visit :: visits⟩, D.isCounted)} := by
    simp [loggedNodes, own, Owner.logged, code]
  rw [entered_inside fine, loggedNodes_append, entered, Option.toList_some, logged,
    Multiset.singleton_add, Multiset.add_cons]
  simp only [Walk.inside, fine, List.foldl_cons, List.foldl_append, List.foldl_nil, enters, h fine,
    leaves, ScopeLog.closeScope]
  simp

end Walk

def Item.visits (r : Registry) : Item → List Visit
  | unit _ => []
  | part p => p.within.filterMap (Part.visit? r)
  | member id => (r.node? id).toList.flatMap (Node.visits r)

theorem visits_bodyItems (r : Registry) (body : List Stmt)
    : (bodyItems body).flatMap (Item.visits r) = visitsIn r body := by
  rw [visitsIn, List.filterMap_flatMap, bodyItems, Part.stmts, List.flatMap_map, List.flatMap_map]
  rfl

/-- What a node that opens a scope is entered with is its own code. Anything else is in the scope around
it.
-/
theorem Visited.visits {item : Item} {written : List Item} (h : Visited r item v written)
    (inside : ∀ u, item ≠ .unit u)
    : (∃ n D, v = n.visit ∧ Owner.ofNode? n = some D ∧ item.visits r = []
        ∧ D.walked r = n.visit :: written.flatMap (Item.visits r))
      ∨ CouplingScope.ofVisit? v = none ∧ item.visits r = v :: written.flatMap (Item.visits r) := by
  have marker (id : NodeId) : (Item.part (.stmt (.declared id))).visits r = [] := by
    rw [Item.visits, Part.within_eq]
    rfl
  cases h with
  | unit u => exact absurd rfl (inside u)
  | @part p v visit =>
    refine .inr ⟨?_, ?_⟩
    · unfold Part.visit? at visit
      split at visit <;> simp at visit <;> subst visit <;> rfl
    · rw [Item.visits, Part.within_eq, List.filterMap_cons, visit, List.filterMap_flatMap,
        List.flatMap_map]
      rfl
  | @type id t found =>
    refine .inl ⟨.type t, _, rfl, rfl, marker id, ?_⟩
    simp [Owner.walked, Node.visit, Item.visits, List.filterMap_eq_flatMap_toList, List.flatMap_assoc,
      List.flatMap_map]
  | @function id f found =>
    exact .inl ⟨.function f, _, rfl, rfl, marker id, by rw [visits_bodyItems]; rfl⟩
  | @method id m found =>
    refine .inr ⟨rfl, ?_⟩
    rw [visits_bodyItems, Item.visits, found, Option.toList_some, List.flatMap_singleton]
    rfl
  | @property id p found =>
    refine .inr ⟨rfl, ?_⟩
    rw [Item.visits, found, Option.toList_some, List.flatMap_singleton]
    rfl

theorem Visited.ne_unit {item : Item} {written : List Item} (h : Visited r item v written)
    : ∀ i ∈ written, ∀ u, i ≠ .unit u := by
  cases h <;> simp [bodyItems]

/-- Walks inside of units log what is entered. Declarations keep their code to themselves. -/
theorem Walked.logs {items : List Item} {w : Walk} (h : Walked r items w)
    (inside : ∀ i ∈ items, ∀ u, i ≠ .unit u) : w.Logs r (items.flatMap (Item.visits r)) := by
  induction h with
  | done =>
    intro _ scope before rest closed
    simp [Walk.done, loggedNodes]
  | failed => simp [Walk.Logs, Walk.failed]
  | @bare s items w declares _ ih =>
    have nothing : (Item.part (.stmt s)).visits r = [] := by
      rw [Item.visits, Part.within_eq]
      cases s <;> first | rfl | simp [Stmt.isDeclaration] at declares
    simpa [nothing] using ih fun i member => inside i (List.mem_cons_of_mem _ member)
  | visit visited _ _ inner rest =>
    rw [List.flatMap_cons]
    refine .andThen ?_ (rest fun i member => inside i (List.mem_cons_of_mem _ member))
    have logged := inner visited.ne_unit
    rcases visited.visits (inside _ List.mem_cons_self) with ⟨n, D, rfl, own, nothing, code⟩ | ⟨plain, all⟩
    · rw [nothing]
      exact logged.scope own code
    · rw [all]
      exact logged.inside plain

namespace Walk

/-- A unit is left with its own code and that of everything declared in it. -/
theorem log_unit {depth : Nat} {u : CompilationUnit} (fine : (unit r depth u).fault = none)
    (closed : Multiset (ScopeCode × Bool))
    : (unit r depth u).events.foldl ScopeLog.step ⟨[], closed⟩
      = ⟨[], closed + {(Owner.unit u).logged r} + loggedNodes r (entered (unit r depth u).events)⟩ := by
  rw [unit, inside_fault] at fine
  have inner := (Walked.stmts (Walked.declaration r depth) u.statements).logs (by simp [bodyItems]) fine
  rw [visits_bodyItems] at inner
  have enters : ScopeLog.step ⟨[], closed⟩ (.enter (.unit u))
      = ⟨[⟨.unit u.scopeId, [.unit u]⟩], closed⟩ := rfl
  have nothing : (Event.enter (.unit u)).entered? = none := rfl
  rw [unit, entered_inside fine, nothing, Option.toList_none, List.nil_append]
  simp only [inside, fine, List.foldl_cons, List.foldl_append, List.foldl_nil, enters, inner]
  rw [add_right_comm]
  rfl

/-- A walk through units leaves them and everything declared in them with its code. -/
theorem log_unitsTo {depth : Nat} {us : List CompilationUnit}
    (fine : (unitsTo r depth us).fault = none) (closed : Multiset (ScopeCode × Bool))
    : (unitsTo r depth us).events.foldl ScopeLog.step ⟨[], closed⟩
      = ⟨[], closed + (us.map fun u => (Owner.unit u).logged r : List (ScopeCode × Bool))
          + loggedNodes r (entered (unitsTo r depth us).events)⟩ := by
  rw [unitsTo, each_events fine]
  have fine := each_fault_iff.mp fine
  clear * - fine
  induction us generalizing closed with
  | nil => simp [loggedNodes]
  | cons u us ih =>
    have later closed := ih closed fun v member => fine v (List.mem_cons_of_mem _ member)
    rw [List.flatMap_cons, List.foldl_append, log_unit (fine u (by simp)), later, entered_append,
      loggedNodes_append, List.map_cons, ← Multiset.cons_coe, ← Multiset.singleton_add]
    congr 1
    ac_rfl

end Walk

end DesignMetrics
