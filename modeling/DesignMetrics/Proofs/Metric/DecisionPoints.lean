import Mathlib.Algebra.BigOperators.Group.List.Basic
import DesignMetrics.Proofs.Metric.UnitOrder

/-! Decision points.
The complexity that is counted during a walk comes to what the declared body of a method or function
says, which is counted here by recursion on the syntax.
-/

namespace DesignMetrics

open List

-- Decision points of the syntax

/-- Decision points, and apart from them short-circuit operators. -/
@[ext]
structure Branching where
  points : Nat := 0
  operators : Nat := 0

namespace Branching

instance : Zero Branching := ⟨{}⟩

instance : Add Branching := ⟨fun a b => ⟨a.points + b.points, a.operators + b.operators⟩⟩

@[simp] theorem points_zero : (0 : Branching).points = 0 := rfl

@[simp] theorem operators_zero : (0 : Branching).operators = 0 := rfl

@[simp] theorem points_add (a b : Branching) : (a + b).points = a.points + b.points := rfl

@[simp] theorem operators_add (a b : Branching) : (a + b).operators = a.operators + b.operators := rfl

instance : AddCommMonoid Branching where
  add_assoc a b c := by ext <;> simp [Nat.add_assoc]
  zero_add a := by ext <;> simp
  add_zero a := by ext <;> simp
  add_comm a b := by ext <;> simp [Nat.add_comm]
  nsmul := nsmulRec

def point : Branching := { points := 1 }

def ofOperator : BinaryOp → Branching
  | .booleanAnd | .booleanOr | .logicalAnd | .logicalOr => { operators := 1 }
  | .logicalXor | .other => 0

end Branching

open Branching (point)

mutual

def Expr.branching : Expr → Branching
  | .literal _ | .var _ | .name _ => 0
  | .array items => Expr.branchingAll items
  | .propertyFetch object property => object.branching + property.branching
  | .staticPropertyFetch owner _ => owner.branching
  | .classConstFetch owner _ => owner.branching
  | .funcCall callee args => callee.branching + Expr.branchingAll args
  | .methodCall object method args =>
    object.branching + method.branching + Expr.branchingAll args
  | .staticCall owner method args => owner.branching + method.branching + Expr.branchingAll args
  | .newObject owner args => owner.branching + Expr.branchingAll args
  | .instanceOf value owner => value.branching + owner.branching
  | .closure params _ _ body => Param.branchingAll params + Stmt.branchingAll body
  | .ternary cond chosen otherwise =>
    point + cond.branching + Expr.branchingOption chosen + otherwise.branching
  | .binary op _ left right => .ofOperator op + left.branching + right.branching
  | .unary _ operand => operand.branching
  | .assign target _ value => target.branching + value.branching
  | .other parts => Expr.branchingAll parts

def Expr.branchingAll : List Expr → Branching
  | [] => 0
  | e :: rest => e.branching + Expr.branchingAll rest

def Expr.branchingOption : Option Expr → Branching
  | none => 0
  | some e => e.branching

def ClassRef.branching : ClassRef → Branching
  | .type _ => 0
  | .dynamic value => value.branching

def MemberName.branching : MemberName → Branching
  | .ident _ => 0
  | .dynamic value => value.branching

def Param.branching : Param → Branching
  | ⟨_, _, default, _, _⟩ => Expr.branchingOption default

def Param.branchingAll : List Param → Branching
  | [] => 0
  | p :: rest => p.branching + Param.branchingAll rest

def Stmt.branching : Stmt → Branching
  | .inNamespace ⟨_, body, _⟩ => Stmt.branchingAll body
  | .classDecl _ | .interfaceDecl _ | .functionDecl _ | .declared _ => 0
  | .expr value => value.branching
  | .echo values => Expr.branchingAll values
  | .ret value => Expr.branchingOption value
  | .throw value => value.branching
  | .ifElse cond body elseIfs otherwise =>
    point + cond.branching + Stmt.branchingAll body + ElseIf.branchingAll elseIfs
      + Stmt.branchingBody otherwise
  | .whileLoop cond body => point + cond.branching + Stmt.branchingAll body
  | .doWhile body cond => point + Stmt.branchingAll body + cond.branching
  | .forLoop init cond step body =>
    point + Expr.branchingAll init + Expr.branchingAll cond + Expr.branchingAll step
      + Stmt.branchingAll body
  | .forEach subject key value body =>
    point + subject.branching + Expr.branchingOption key + Expr.branchingOption value
      + Stmt.branchingAll body
  | .switch subject cases => subject.branching + Case.branchingAll cases
  | .tryCatch body catches cleanup =>
    Stmt.branchingAll body + Catch.branchingAll catches + Stmt.branchingBody cleanup
  | .block body => Stmt.branchingAll body
  | .other parts => Expr.branchingAll parts

def Stmt.branchingAll : List Stmt → Branching
  | [] => 0
  | s :: rest => s.branching + Stmt.branchingAll rest

def Stmt.branchingBody : Option (List Stmt) → Branching
  | none => 0
  | some body => Stmt.branchingAll body

def ElseIf.branching : ElseIf → Branching
  | ⟨cond, body⟩ => point + cond.branching + Stmt.branchingAll body

def ElseIf.branchingAll : List ElseIf → Branching
  | [] => 0
  | e :: rest => e.branching + ElseIf.branchingAll rest

def Case.branching : Case → Branching
  | ⟨none, body⟩ => Stmt.branchingAll body
  | ⟨some test, body⟩ => point + test.branching + Stmt.branchingAll body

def Case.branchingAll : List Case → Branching
  | [] => 0
  | c :: rest => c.branching + Case.branchingAll rest

def Catch.branching : Catch → Branching
  | ⟨_, _, body⟩ => point + Stmt.branchingAll body

def Catch.branchingAll : List Catch → Branching
  | [] => 0
  | c :: rest => c.branching + Catch.branchingAll rest

end

def Part.branching : Part → Branching
  | stmt s => s.branching
  | expr e => e.branching

-- Parts

def branchingOf (parts : List Part) : Branching := (parts.map Part.branching).sum

@[simp] theorem branchingOf_nil : branchingOf [] = 0 := rfl

@[simp] theorem branchingOf_cons (p : Part) (parts : List Part)
    : branchingOf (p :: parts) = p.branching + branchingOf parts := by
  simp [branchingOf]

@[simp] theorem branchingOf_append (parts more : List Part)
    : branchingOf (parts ++ more) = branchingOf parts + branchingOf more := by
  simp [branchingOf]

@[simp] theorem branchingOf_exprs (items : List Expr)
    : branchingOf (Part.exprs items) = Expr.branchingAll items := by
  induction items with
  | nil => rw [Expr.branchingAll]; rfl
  | cons e rest ih =>
    rw [Expr.branchingAll, ← ih]
    exact branchingOf_cons _ _

@[simp] theorem branchingAll_toList (value : Option Expr)
    : Expr.branchingAll value.toList = Expr.branchingOption value := by
  cases value <;> simp [Expr.branchingOption, Expr.branchingAll]

@[simp] theorem branchingOf_stmts (body : List Stmt)
    : branchingOf (Part.stmts body) = Stmt.branchingAll body := by
  induction body with
  | nil => rw [Stmt.branchingAll]; rfl
  | cons s rest ih =>
    rw [Stmt.branchingAll, ← ih]
    exact branchingOf_cons _ _

@[simp] theorem branchingAll_getD (body : Option (List Stmt))
    : Stmt.branchingAll (body.getD []) = Stmt.branchingBody body := by
  cases body <;> simp [Stmt.branchingBody, Stmt.branchingAll]

@[simp] theorem branchingOf_classRef (c : ClassRef) : branchingOf c.parts = c.branching := by
  cases c <;> simp [ClassRef.parts, ClassRef.branching, Part.branching]

@[simp] theorem branchingOf_memberName (m : MemberName) : branchingOf m.parts = m.branching := by
  cases m <;> simp [MemberName.parts, MemberName.branching, Part.branching]

/-- Items of which some are decision points: the decisions of all of them and those of their parts. -/
theorem branchingOf_items {α : Type} (decides : α → Bool) {parts : α → List Part}
    {branching : α → Branching} {branchingAll : List α → Branching} (nil : branchingAll [] = 0)
    (cons : ∀ a rest, branchingAll (a :: rest) = branching a + branchingAll rest)
    (each : ∀ a, branching a = (if decides a then point else 0) + branchingOf (parts a))
    (items : List α)
    : { points := items.countP decides } + branchingOf (items.flatMap parts) = branchingAll items := by
  induction items with
  | nil =>
    rw [nil]
    rfl
  | cons a rest ih =>
    rw [List.flatMap_cons, branchingOf_append, cons, each, ← ih, countP_cons]
    cases decides a <;>
      ext <;>
      simp [point] <;>
      omega

@[simp] theorem branchingOf_params (params : List Param)
    : branchingOf (params.flatMap Param.parts) = Param.branchingAll params := by
  have each (p : Param)
      : p.branching = (if false then point else 0) + branchingOf p.parts := by
    cases p
    simp [Param.parts, Param.branching]
  have all : { points := params.countP fun _ => false } + branchingOf (params.flatMap Param.parts)
      = Param.branchingAll params :=
    branchingOf_items _ (by rw [Param.branchingAll]) (fun p rest => by rw [Param.branchingAll]) each _
  rw [← all, countP_false]
  exact (zero_add _).symm

/-- Every alternative of a condition is a decision point. -/
theorem branchingOf_elseIfs (elseIfs : List ElseIf)
    : { points := elseIfs.length } + branchingOf (elseIfs.flatMap ElseIf.parts)
      = ElseIf.branchingAll elseIfs := by
  have each (e : ElseIf) : e.branching = (if true then point else 0) + branchingOf e.parts := by
    cases e
    simp [ElseIf.parts, ElseIf.branching, Part.branching, add_assoc]
  rw [← countP_true]
  exact branchingOf_items _ (by rw [ElseIf.branchingAll]) (fun e rest => by rw [ElseIf.branchingAll])
    each elseIfs

/-- Every arm with a test is a decision point. -/
theorem branchingOf_cases (cases : List Case)
    : { points := cases.countP fun c => c.test.isSome } + branchingOf (cases.flatMap Case.parts)
      = Case.branchingAll cases := by
  have each (c : Case)
      : c.branching = (if c.test.isSome then point else 0) + branchingOf c.parts := by
    obtain ⟨_ | test, body⟩ := c
    · simp [Case.parts, Case.branching, Expr.branchingAll]
    · simp [Case.parts, Case.branching, Expr.branchingAll, add_assoc]
  exact branchingOf_items _ (by rw [Case.branchingAll]) (fun c rest => by rw [Case.branchingAll])
    each cases

/-- Every handler is a decision point. -/
theorem branchingOf_catches (catches : List Catch)
    : { points := catches.length } + branchingOf (catches.flatMap Catch.parts)
      = Catch.branchingAll catches := by
  have each (c : Catch) : c.branching = (if true then point else 0) + branchingOf c.parts := by
    cases c
    simp [Catch.parts, Catch.branching]
  rw [← countP_true]
  exact branchingOf_items _ (by rw [Catch.branchingAll]) (fun c rest => by rw [Catch.branchingAll])
    each catches

def Part.ownBranching : Part → Branching
  | stmt s => { points := s.decisions }
  | expr e => { points := e.decisions, operators := if e.isShortCircuit then 1 else 0 }

theorem Expr.branching_eq (e : Expr)
    : e.branching = (Part.expr e).ownBranching + branchingOf e.parts := by
  cases e with
  | binary op operator left right =>
    cases op <;> ext <;>
      simp [Expr.branching, Expr.parts, Part.ownBranching, Expr.decisions, Expr.isShortCircuit,
        BinaryOp.isShortCircuit, Branching.ofOperator, Part.branching] <;> omega
  | _ =>
    ext <;>
      simp [Expr.branching, Expr.parts, Part.ownBranching, Expr.decisions, Expr.isShortCircuit,
        Part.branching, point] <;>
      omega

theorem Stmt.branching_eq (s : Stmt)
    : s.branching = (Part.stmt s).ownBranching + branchingOf s.parts := by
  cases s with
  | ifElse cond body elseIfs otherwise =>
    rw [Stmt.branching, ← branchingOf_elseIfs]
    ext <;> simp [Stmt.parts, Part.ownBranching, Stmt.decisions, Part.branching, point] <;> omega
  | switch subject cases =>
    rw [Stmt.branching, ← branchingOf_cases]
    ext
    · simp [Stmt.parts, Part.ownBranching, Stmt.decisions, Part.branching]
      omega
    · simp [Stmt.parts, Part.ownBranching, Part.branching]
  | tryCatch body catches cleanup =>
    rw [Stmt.branching, ← branchingOf_catches]
    ext <;> simp [Stmt.parts, Part.ownBranching, Stmt.decisions] <;> omega
  | inNamespace d =>
    cases d
    ext <;> simp [Stmt.branching, Stmt.parts, Part.ownBranching, Stmt.decisions]
  | _ =>
    ext <;>
      simp [Stmt.branching, Stmt.parts, Part.ownBranching, Stmt.decisions, Part.branching, point] <;>
      omega

-- Tallies

def Branching.record (b : Branching) : ComplexityRecord := ⟨b.points, b.points + b.operators⟩

theorem Branching.record_add (a b : Branching) : (a + b).record = a.record.add b.record := by
  simp [record, ComplexityRecord.add, Nat.add_add_add_comm]

theorem record_branchingOf (parts : List Part)
    : (branchingOf parts).record = .sum (parts.map fun p => p.branching.record) := by
  induction parts with
  | nil => rfl
  | cons p parts ih =>
    rw [branchingOf_cons, Branching.record_add, ih, List.map_cons, ComplexityRecord.sum_cons]

theorem Part.record_ownBranching (p : Part) : p.ownBranching.record = .ofPart p := by
  cases p <;> rfl

/-- The tally of a part is that of the decision points in it, by induction on its size. -/
theorem Part.tally_eq_branching (p : Part) : p.tally = p.branching.record := by
  have children : .sum (p.children.map tally) = (branchingOf p.children).record := by
    rw [record_branchingOf]
    refine congrArg _ (List.map_congr_left fun q child => ?_)
    have := Part.sizeOf_lt_of_mem_children child
    exact tally_eq_branching q
  have split : p.branching = p.ownBranching + branchingOf p.children := by
    cases p with
    | stmt s => exact s.branching_eq
    | expr e => exact e.branching_eq
  rw [Part.tally_eq, children, split, Branching.record_add, record_ownBranching]
termination_by sizeOf p

theorem tallyOf_eq_branching (body : List Stmt) : tallyOf body = (Stmt.branchingAll body).record := by
  rw [← branchingOf_stmts, record_branchingOf, Part.stmts, List.map_map]
  exact congrArg _ (List.map_congr_left fun s _ => Part.tally_eq_branching (.stmt s))

def ccnOf (body : List Stmt) : Nat := 1 + (Stmt.branchingAll body).points

def ccn2Of (body : List Stmt) : Nat := ccnOf body + (Stmt.branchingAll body).operators

theorem ComplexityRecord.ofBody_eq (body : List Stmt) : ofBody body = ⟨ccnOf body, ccn2Of body⟩ := by
  rw [ofBody, tallyOf_eq_branching]
  simp [Branching.record, ComplexityRecord.add, ccnOf, ccn2Of, Nat.add_assoc]

theorem ComplexityRecord.sum_ofBody (bodies : List (List Stmt))
    : sum (bodies.map ofBody) = ⟨(bodies.map ccnOf).sum, (bodies.map ccn2Of).sum⟩ := by
  induction bodies with
  | nil => rfl
  | cons body bodies ih =>
    rw [map_cons, sum_cons, ih, ofBody_eq, map_cons, map_cons, List.sum_cons, List.sum_cons, add]

-- Declared bodies

open Binding in
/-- The callables that stand for a declaration in the file `path`, with the body that is declared. -/
inductive Declares (path : String) : Part → Node → List Stmt → Prop
  | function (d : FunctionDecl) (known : List NodeId)
    : Declares path (.stmt (.functionDecl d))
        (.function { functionNode path d with body := (draftStmts path known d.body).value }) d.body
  | method {p : Part} {scope : TypeScope} {members : List Member} {d : MethodDecl}
      (declares : p.scope? = some (scope, members)) (member : .method d ∈ members)
      (known : List NodeId)
    : Declares path p
        (.method { methodNode path scope d with body := (draftBody path known d.body).value })
        (d.body.getD [])

def Node.isCallable : Node → Bool
  | method _ | function _ => true
  | space _ | type _ | property _ => false

theorem Stands.exists_body {path : String} {p : Part} {n : Node} (h : Stands path p n)
    (callable : n.isCallable) : ∃ body, Declares path p n body := by
  cases h with
  | function d known => exact ⟨_, .function d known⟩
  | method declares member known => exact ⟨_, .method declares member known⟩
  | _ => simp [Node.isCallable] at callable

/-- Binding the declarations in a body does not change what it comes to. -/
theorem Declares.ofBody_statements {path : String} {p : Part} {n : Node} {body : List Stmt}
    (h : Declares path p n body) : ComplexityRecord.ofBody n.statements = .ofBody body := by
  unfold ComplexityRecord.ofBody
  cases h with
  | function d known => exact congrArg _ (tally_draft d.body known)
  | method _ _ known => exact congrArg _ (tally_draftBody _ known)

-- Callables that are left

def Node.result? (n : Node) : Option (NodeId × ComplexityRecord) :=
  if n.isCallable then some (n.id, .ofBody n.statements) else none

def Event.leftVisit? : Event → Option Visit
  | .leave v => some v
  | .enter _ => none

def Event.enteredVisit? : Event → Option Visit
  | .enter v => some v
  | .leave _ => none

/-- What is entered is left again or still open. -/
theorem Chained.perm {chain last : List Visit} {events : List Event} (h : Chained chain events last)
    : (events.filterMap Event.leftVisit? ++ last).Perm
        (events.filterMap Event.enteredVisit? ++ chain) := by
  induction h with
  | nil => exact .rfl
  | enter _ _ ih => exact ih.trans perm_middle
  | leave _ ih => exact (ih.cons _).trans perm_middle.symm

/-- The results of a walk without a fault are those of the callables that it enters. -/
theorem Walk.results_perm {r : Registry} {units : List CompilationUnit}
    (fine : (Walk.units r units).fault = none)
    : ((Walk.units r units).events.filterMap Event.result?).Perm
        ((entered (Walk.units r units).events).filterMap Node.result?) := by
  obtain ⟨last, chained, back⟩ := nests_unitsTo r (r.size + 1) units
  obtain rfl := back fine
  have visits := chained.perm.filterMap fun v => (Event.leave v).result?
  rw [append_nil, append_nil, filterMap_filterMap, filterMap_filterMap] at visits
  have left (e : Event) : (e.leftVisit?.bind fun v => (Event.leave v).result?) = e.result? := by
    cases e <;> rfl
  have right (e : Event)
      : (e.enteredVisit?.bind fun v => (Event.leave v).result?) = e.entered?.bind Node.result? := by
    cases e with
    | leave v => rfl
    | enter v => cases v <;> rfl
  simp only [left, right] at visits
  rwa [entered, filterMap_filterMap]

def Registry.callables (r : Registry) : List Node := r.toList.filter Node.isCallable

/-- The results of callables are known from their nodes. -/
theorem filterMap_result? (r : Registry)
    : (declarations r.toList).filterMap Node.result?
      = r.callables.map fun n => (n.id, .ofBody n.statements) := by
  rw [declarations, filterMap_filter, Registry.callables, ← filterMap_eq_map, filterMap_filter]
  refine filterMap_congr fun n _ => ?_
  cases n <;> rfl

/-- What is known in the end: the record of every callable of the registry, and all of them together. -/
theorem Bound.complexities {files : List SourceFile} {units : List CompilationUnit} {r : Registry}
    {o : Outline} (h : Bound files [] ∅ (units, r) o) (plain : Plain files)
    : let c := (Walk.units r units).events.foldl (fun c e => c.observe e)
        ({ cache := ⟨⟩ } : Complexity NoCache)
      c.total = .sum (r.callables.map fun n => .ofBody n.statements)
      ∧ (∀ n ∈ r.callables, c.records[n.id]? = some (.ofBody n.statements))
      ∧ ∀ id ∉ r.callables.map Node.id, c.records[id]? = none := by
  intro c
  obtain ⟨fine, order⟩ := h.entered_units plain
  have results : c.results = _ :=
    Complexity.results_foldl_observe Complexity.counting_start (Walk.tallied_units r units)
  have entries := Walk.results_perm fine
  rw [order, filterMap_result?] at entries
  have own (e : NodeId × ComplexityRecord)
      (member : e ∈ (Walk.units r units).events.filterMap Event.result?)
      : e.2 = r.complexityOf e.1 := by
    obtain ⟨n, there, rfl⟩ := mem_map.mp (entries.mem_iff.mp member)
    have found := Registry.node?_of_mem (mem_of_mem_filter there)
    simp [Registry.complexityOf, found]
  have ids : ∀ id, id ∈ ((Walk.units r units).events.filterMap Event.result?).map Prod.fst
      ↔ id ∈ r.callables.map Node.id := by
    intro id
    rw [(entries.map Prod.fst).mem_iff, map_map]
    rfl
  have total : c.total = c.results.2 := rfl
  have records : c.records = c.results.1 := rfl
  rw [Complexity.foldl_addResult] at results
  refine ⟨?_, fun n member => ?_, fun id other => ?_⟩
  · rw [total, results, ComplexityRecord.sum_perm (entries.map Prod.snd), map_map]
    exact ComplexityRecord.zero_add _
  · have found := Registry.node?_of_mem (mem_of_mem_filter member)
    rw [records, results]
    simp only
    rw [getElem?_insertMany r.complexityOf own, if_pos ((ids _).mpr (mem_map_of_mem member))]
    simp [Registry.complexityOf, found]
  · rw [records, results]
    simp only
    rw [getElem?_insertMany r.complexityOf own, if_neg (mt (ids id).mp other)]
    rfl

-- Complexities of plain files

/-- Every callable of a registry stands for a declaration in the files. -/
theorem exists_declared_bodies {files : List (SourceFile × String)} {nodes : List Node}
    (registered : nodes ⊆ (bindAll ∅ files).2.callables)
    : ∃ bodies, Forall₂ (fun n body => n ∈ (bindAll ∅ files).2.callables
        ∧ ∃ path p, Sourced (files.map Prod.fst) path p ∧ Declares path p n body) nodes bodies := by
  induction nodes with
  | nil => exact ⟨[], .nil⟩
  | cons n nodes ih =>
    obtain ⟨here, others⟩ := cons_subset.mp registered
    obtain ⟨bodies, rest⟩ := ih others
    obtain ⟨member, callable⟩ := mem_filter.mp here
    obtain ⟨path, p, sourced, stands⟩ := stands_of_mem_bindAll member
    obtain ⟨body, declares⟩ := stands.exists_body callable
    exact ⟨body :: bodies, .cons ⟨here, path, p, sourced, declares⟩ rest⟩

/-- In plain files the complexity of every method and function is one more than the number of decision
points in its declared body, the second number also counts the operators that may leave out an operand,
and nothing else has a complexity. The project has the sums of both over all methods and functions. -/
theorem complexity_counts_decisions (files : List (SourceFile × String))
    (unbound : ∀ file ∈ files, file.1.Unbound) (plain : Plain (files.map Prod.fst))
    : let units := (bindAll ∅ files).1
      let r := (bindAll ∅ files).2
      ∃ (c : Complexity NoCache) (bodies : List (List Stmt)),
        (∀ kinds : List AnalyzerKind,
          let outcome := (Analyzer.run r units kinds NoCache.mk).1
          (.nodeCount ∉ kinds → outcome.fault = none)
          ∧ (outcome.fault = none
            → ∀ i : Nat, kinds[i]? = some .complexity → outcome.observers[i]? = some (.complexity c)))
        ∧ Forall₂ (fun n body =>
            (∃ path p, Sourced (files.map Prod.fst) path p ∧ Declares path p n body)
            ∧ c.records[n.id]? = some ⟨ccnOf body, ccn2Of body⟩
            ∧ c.nodeMetrics n.id = [("ccn", count (ccnOf body)), ("ccn2", count (ccn2Of body))])
          r.callables bodies
        ∧ (∀ id, id ∈ c.nodeIds ↔ id ∈ r.callables.map Node.id)
        ∧ c.total = ⟨(bodies.map ccnOf).sum, (bodies.map ccn2Of).sum⟩
        ∧ c.projectMetrics
          = [("ccn", count (bodies.map ccnOf).sum), ("ccn2", count (bodies.map ccn2Of).sum)] := by
  intro units r
  obtain ⟨o, bound⟩ := bindAll_empty_bound files unbound
  obtain ⟨fine, _⟩ := bound.entered_units plain
  obtain ⟨total, records, others⟩ := bound.complexities plain
  obtain ⟨bodies, declared⟩ := exists_declared_bodies (Subset.refl r.callables)
  have each : Forall₂ (fun n body => ComplexityRecord.ofBody n.statements = .ofBody body)
      r.callables bodies := by
    refine declared.imp fun n body h => ?_
    obtain ⟨_, _, _, _, declares⟩ := h
    exact declares.ofBody_statements
  have sums : ComplexityRecord.sum (r.callables.map fun n => .ofBody n.statements)
      = ⟨(bodies.map ccnOf).sum, (bodies.map ccn2Of).sum⟩ := by
    rw [← ComplexityRecord.sum_ofBody]
    exact congrArg _ (forall₂_eq_eq_eq ▸ forall₂_map_left_iff.mpr (forall₂_map_right_iff.mpr each))
  rw [sums] at total
  refine ⟨_, bodies, fun kinds => ⟨Analyzer.run_fault_eq_none fine, fun ended i here =>
    Analyzer.run_observer ended here (Analyzer.observeAll_complexity _ _)⟩, ?_, fun id => ?_, total, ?_⟩
  · refine declared.imp fun n body h => ?_
    obtain ⟨member, path, p, sourced, declares⟩ := h
    have record := records n member
    rw [declares.ofBody_statements, ComplexityRecord.ofBody_eq] at record
    refine ⟨⟨path, p, sourced, declares⟩, record, ?_⟩
    rw [Complexity.nodeMetrics, record]
    rfl
  · rw [Complexity.nodeIds, Std.TreeMap.mem_keys, Std.TreeMap.mem_iff_isSome_getElem?]
    constructor
    · intro known
      by_contra other
      rw [others id other] at known
      contradiction
    · intro member
      obtain ⟨n, here, rfl⟩ := mem_map.mp member
      rw [records n here]
      rfl
  · rw [Complexity.projectMetrics, total]
    rfl

def nestedDecisions : SourceFile :=
  let x : Expr := .var "x"
  let inner : Stmt := .functionDecl ⟨"f", [], none, [],
    [.whileLoop (.binary .logicalOr "or" x x) []], ⟨4, 6⟩⟩
  let closure : Expr := .closure [⟨"p", none, some (.ternary x none x), false, false⟩] [] none
    [.forEach x none (some x) []]
  let pick : Stmt := .switch x [⟨some x, [inner]⟩, ⟨none, []⟩]
  let test : Stmt := .ifElse (.binary .booleanAnd "&&" x x) [pick] [⟨x, [.expr closure]⟩] none
  let method : Member := .method ⟨"m", .isPublic, [], none, [], some [test], ⟨2, 9⟩⟩
  ⟨"a.php", [.classDecl ⟨"A", .none, none, [], [method], ⟨1, 10⟩⟩]⟩

def Analyzer.complexity? : Analyzer NoCache → Option (Complexity NoCache)
  | .complexity c => some c
  | _ => none

/-- The method has five decision points and an operator, the function one of each. -/
theorem complexity_nestedDecisions
    : (∀ file ∈ [(nestedDecisions, "")], file.1.Unbound) ∧ Plain [nestedDecisions]
      ∧ ∃ (c : Complexity NoCache) (bodies : List (List Stmt)),
        (Analyzer.run (bindAll ∅ [(nestedDecisions, "")]).2 (bindAll ∅ [(nestedDecisions, "")]).1
          [.complexity] NoCache.mk).1.observers[0]? = some (.complexity c)
        ∧ Forall₂ (fun n body => c.records[n.id]? = some ⟨ccnOf body, ccn2Of body⟩)
          (bindAll ∅ [(nestedDecisions, "")]).2.callables bodies
        ∧ c.records[NodeId.method "A" "m"]? = some ⟨6, 7⟩
        ∧ (bodies.map ccnOf).sum = 8 ∧ (bodies.map ccn2Of).sum = 10 := by
  have unbound : ∀ file ∈ [(nestedDecisions, "")], file.1.Unbound := by decide +kernel
  have plain : Plain [nestedDecisions] := by decide +kernel
  obtain ⟨c, bodies, ran, counted, _, total, _⟩ :=
    complexity_counts_decisions [(nestedDecisions, "")] unbound plain
  obtain ⟨ends, gives⟩ := ran [.complexity]
  have gives := gives (ends (by decide)) 0 rfl
  have known : ((Analyzer.run (bindAll ∅ [(nestedDecisions, "")]).2
      (bindAll ∅ [(nestedDecisions, "")]).1 [.complexity] NoCache.mk).1.observers[0]?.bind
        Analyzer.complexity?).map (fun c => (c.records[NodeId.method "A" "m"]?, c.total))
      = some (some ⟨6, 7⟩, ⟨8, 10⟩) := by
    decide +kernel
  rw [gives] at known
  obtain ⟨method, sums⟩ : c.records[NodeId.method "A" "m"]? = some ⟨6, 7⟩ ∧ c.total = ⟨8, 10⟩ := by
    simpa [Analyzer.complexity?] using known
  obtain ⟨first, second⟩ := ComplexityRecord.mk.inj (total.symm.trans sums)
  exact ⟨unbound, plain, c, bodies, gives, counted.imp fun _ _ h => h.2.1, method, first, second⟩

end DesignMetrics
