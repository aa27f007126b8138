import DesignMetrics.Metric.Complexity
import DesignMetrics.Proofs.Binding.Values
import DesignMetrics.Proofs.Traversal.Tour

/-! What the complexity of a callable is counted from.
Every part of a body counts once, for the callable that the body belongs to, and what is declared inside
counts for itself. So the record of a callable is known before it is walked.
-/

namespace DesignMetrics

namespace ComplexityRecord

@[simp] theorem add_zero (a : ComplexityRecord) : a.add ⟨0, 0⟩ = a := rfl

@[simp] theorem zero_add (a : ComplexityRecord) : add ⟨0, 0⟩ a = a := by
  simp [add]

theorem add_assoc (a b c : ComplexityRecord) : (a.add b).add c = a.add (b.add c) := by
  simp [add, Nat.add_assoc]

theorem add_left_comm (a b c : ComplexityRecord) : a.add (b.add c) = b.add (a.add c) := by
  simp [add, Nat.add_left_comm]

def sum (records : List ComplexityRecord) : ComplexityRecord := records.foldr add ⟨0, 0⟩

@[simp] theorem sum_nil : sum [] = ⟨0, 0⟩ := rfl

@[simp] theorem sum_cons (a : ComplexityRecord) (records : List ComplexityRecord)
    : sum (a :: records) = a.add (sum records) := rfl

@[simp] theorem sum_append (records more : List ComplexityRecord)
    : sum (records ++ more) = (sum records).add (sum more) := by
  induction records with
  | nil => simp
  | cons a records ih => simp [ih, add_assoc]

def ofPart : Part → ComplexityRecord
  | .stmt s => ofVisit (.stmt s)
  | .expr e => ofVisit (.expr e)

end ComplexityRecord

open ComplexityRecord (sum ofPart)

def Part.tally (p : Part) : ComplexityRecord := sum (p.within.map ofPart)

def tallyOf (body : List Stmt) : ComplexityRecord := sum (body.map fun s => (Part.stmt s).tally)

theorem Part.tally_eq (p : Part) : p.tally = (ofPart p).add (sum (p.children.map tally)) := by
  have collect (parts : List Part)
      : sum ((parts.flatMap within).map ofPart) = sum (parts.map tally) := by
    induction parts with
    | nil => rfl
    | cons q parts ih => simp [ih, tally]
  rw [tally, within_eq, List.map_cons, ComplexityRecord.sum_cons, collect]

/-- A statement counts for itself, for its expressions and for its bodies. -/
theorem Stmt.tally_eq (s : Stmt)
    : (Part.stmt s).tally
      = (ofPart (.stmt s)).add ((sum (s.exprs.map Part.tally)).add (tallyOf s.bodies.flatten)) := by
  have split (parts : List Part)
      : sum (parts.map Part.tally)
        = (sum ((parts.filter Part.isExpr).map Part.tally)).add
            (sum ((parts.filter Part.isStmt).map Part.tally)) := by
    induction parts with
    | nil => rfl
    | cons p parts ih =>
      cases p with
      | stmt s =>
        rw [List.filter_cons_of_neg (by simp [Part.isExpr]), List.filter_cons_of_pos rfl]
        simp only [List.map_cons, ComplexityRecord.sum_cons, ih]
        rw [ComplexityRecord.add_left_comm]
      | expr e =>
        rw [List.filter_cons_of_pos rfl, List.filter_cons_of_neg (by simp [Part.isStmt])]
        simp only [List.map_cons, ComplexityRecord.sum_cons, ih, ComplexityRecord.add_assoc]
  have children : (Part.stmt s).children = s.parts := rfl
  rw [Part.tally_eq, children, split, filter_parts, Part.stmts, List.map_map]
  rfl

/-- New bodies leave the ways to go on at a statement as they are. -/
theorem Stmt.decisions_rebuild {s : Stmt} {new : List (List Stmt)} (h : new.length = s.bodies.length)
    : (s.rebuild new).decisions = s.decisions := by
  cases s with
  | ifElse _ body items last | tryCatch body items last =>
    cases new with
    | nil => simp [bodies] at h
    | cons b rest =>
      have enough : items.length ≤ rest.length := by simp [bodies] at h; omega
      simp [rebuild, decisions, enough]
  | switch subject cases =>
    have enough : cases.length ≤ new.length := by simp [bodies] at h; omega
    have tests : (cases.zipWith Case.withBody new).map (fun c => c.test.isSome)
        = cases.map fun c => c.test.isSome := zipWith_rest _ (fun _ _ => rfl) enough
    have counts (cs : List Case)
        : cs.countP (fun c => c.test.isSome) = (cs.map fun c => c.test.isSome).countP id := by
      rw [List.countP_map]
      rfl
    simp only [rebuild, decisions]
    rw [counts, tests, counts]
  | inNamespace | whileLoop | doWhile | forLoop | forEach | block =>
    obtain ⟨b, rfl⟩ := List.length_eq_one_iff.mp (by simpa [bodies] using h)
    rfl
  | _ => rfl

/-- A declaration adds nothing to what it stands in. -/
theorem Stmt.tally_of_declaration {s : Stmt} (h : s.isDeclaration) : (Part.stmt s).tally = ⟨0, 0⟩ := by
  cases s with
  | classDecl | interfaceDecl | functionDecl =>
    rw [Part.tally_eq]
    rfl
  | _ => simp [isDeclaration] at h

section

variable {path : String}

theorem tally_draftStmts {body : List Stmt}
    (each : ∀ s ∈ body, ∀ known,
      (Part.stmt (draftStmt path known s).value).tally = (Part.stmt s).tally) (known : List NodeId)
    : tallyOf (draftStmts path known body).value = tallyOf body := by
  induction body generalizing known with
  | nil => rw [draftStmts]
  | cons s rest ih =>
    have later := ih (fun t member => each t (List.mem_cons_of_mem _ member))
    simp only [draftStmts, Drafted.both, tallyOf, List.map_cons, ComplexityRecord.sum_cons]
    rw [each s (by simp)]
    exact congrArg _ (later _)

theorem tally_draftBodies {bodies : List (List Stmt)}
    (each : ∀ body ∈ bodies, ∀ s ∈ body, ∀ known,
      (Part.stmt (draftStmt path known s).value).tally = (Part.stmt s).tally) (known : List NodeId)
    : tallyOf (draftBodies path known bodies).value.flatten = tallyOf bodies.flatten := by
  have append (body more : List Stmt) : tallyOf (body ++ more) = (tallyOf body).add (tallyOf more) := by
    simp [tallyOf]
  induction bodies generalizing known with
  | nil => rw [draftBodies]
  | cons body rest ih =>
    have later := ih (fun b member => each b (List.mem_cons_of_mem _ member))
    simp only [draftBodies, Drafted.both, List.flatten_cons, append]
    rw [tally_draftStmts (each body (by simp)), later]

/-- Binding leaves the tally of a statement as it is, by induction on the bodies in it. -/
theorem tally_draftStmt (s : Stmt) (known : List NodeId)
    : (Part.stmt (draftStmt path known s).value).tally = (Part.stmt s).tally := by
  have declaration {s : Stmt} (kind : s.isDeclaration) (known : List NodeId)
      : (Part.stmt (draftStmt path known s).value).tally = (Part.stmt s).tally := by
    rcases value_draftStmt_of_declaration known kind with same | ⟨id, same⟩
    · rw [same]
    · rw [same, Stmt.tally_of_declaration kind, Part.tally_eq]
      rfl
  induction s using Stmt.bodyInduction generalizing known with
  | classDecl | interfaceDecl | functionDecl => exact declaration rfl known
  | other s kind ih =>
    have lengths := length_draftBodies path (known ++ (s.opening path).ids) s.bodies
    have inner := tally_draftBodies ih (known ++ (s.opening path).ids)
    rw [draftStmt_of_other kind, Drafted.both]
    simp only
    rw [Stmt.tally_eq, Stmt.tally_eq s, Stmt.exprs_rebuild lengths, Stmt.bodies_rebuild lengths, inner,
      ofPart, ofPart, ComplexityRecord.ofVisit, ComplexityRecord.ofVisit,
      Stmt.decisions_rebuild lengths]

theorem tally_draft (body : List Stmt) (known : List NodeId)
    : tallyOf (draftStmts path known body).value = tallyOf body :=
  tally_draftStmts (fun s _ => tally_draftStmt s) known

theorem tally_draftBody (body : Option (List Stmt)) (known : List NodeId)
    : tallyOf ((draftBody path known body).value.getD []) = tallyOf (body.getD []) := by
  cases body with
  | none => rw [draftBody]
  | some body =>
    rw [draftBody]
    exact tally_draft body known

end

def Visit.body? : Visit → Option (List Stmt)
  | .method m => some (m.body.getD [])
  | .function f => some f.body
  | _ => none

variable {v : Visit} {r : Registry}

/-- What stands in a body is visited as no callable, with what its part adds. -/
theorem Part.visit?_plain {p : Part} (h : p.visit? r = some v)
    : v.body? = none ∧ .ofVisit v = ofPart p := by
  unfold Part.visit? at h
  split at h <;> simp at h <;> subst h <;> exact ⟨rfl, rfl⟩

def ComplexityRecord.ofBody (body : List Stmt) : ComplexityRecord := add ⟨1, 1⟩ (tallyOf body)

abbrev OpenCallable := Visit × ComplexityRecord

def addOpen (more : ComplexityRecord) : List OpenCallable → List OpenCallable
  | [] => []
  | (v, record) :: rest => (v, record.add more) :: rest

@[simp] theorem addOpen_zero (frames : List OpenCallable) : addOpen ⟨0, 0⟩ frames = frames := by
  cases frames <;> rfl

@[simp] theorem addOpen_addOpen (a b : ComplexityRecord) (frames : List OpenCallable)
    : addOpen b (addOpen a frames) = addOpen (a.add b) frames := by
  cases frames <;> simp [addOpen, ComplexityRecord.add_assoc]

def stepOpen (frames : List OpenCallable) : Event → List OpenCallable
  | .enter v => if v.body?.isSome then (v, ⟨1, 1⟩) :: frames else addOpen (.ofVisit v) frames
  | .leave v => if v.body?.isSome then frames.tail else frames

def Complete (frames : List OpenCallable) : Event → Prop
  | .enter _ => True
  | .leave v => ∀ body, v.body? = some body → frames.head? = some (v, .ofBody body)

def Tallied : List OpenCallable → List Event → Prop
  | _, [] => True
  | frames, e :: events => Complete frames e ∧ Tallied (stepOpen frames e) events

namespace Walk

def Adds (record : ComplexityRecord) (w : Walk) : Prop :=
  ∀ frames rest, (w.fault.isSome → rest = [])
    → (w.fault = none → Tallied (addOpen record frames) rest) → Tallied frames (w.events ++ rest)

theorem Adds.andThen {a b : ComplexityRecord} {first next : Walk} (h : Adds a first)
    (after : Adds b next) : Adds (a.add b) (first.andThen next) := by
  intro frames rest ended follows
  unfold Walk.andThen at ended follows ⊢
  cases fault : first.fault with
  | some f =>
    simp only [fault] at ended
    exact h frames rest (by simpa [fault] using ended) (by simp [fault])
  | none =>
    simp only [fault] at ended follows ⊢
    rw [List.append_assoc]
    refine h frames _ (by simp [fault]) fun _ => after _ rest ended fun fine => ?_
    simpa using follows fine

variable {inner : Walk}

/-- What is entered around a walk adds what is left of it at the end. -/
theorem Adds.bracket {record outer : ComplexityRecord} (h : Adds record inner)
    (closes : ∀ frames, Complete (addOpen record (stepOpen frames (.enter v))) (.leave v)
      ∧ stepOpen (addOpen record (stepOpen frames (.enter v))) (.leave v) = addOpen outer frames)
    : Adds outer (inside v inner) := by
  intro frames rest ended after
  rw [inside_fault] at ended after
  obtain ⟨complete, left⟩ := closes frames
  unfold Walk.inside
  cases fault : inner.fault with
  | some f => exact ⟨trivial, h _ rest ended (by simp [fault])⟩
  | none =>
    simp only [List.cons_append, List.append_assoc]
    exact ⟨trivial, h _ _ (by simp [fault]) fun _ => ⟨complete, left ▸ after fault⟩⟩

/-- What is no callable adds its own record. -/
theorem Adds.inside {record : ComplexityRecord} (h : Adds record inner) (plain : v.body? = none)
    : Adds (.add (.ofVisit v) record) (inside v inner) :=
  h.bracket fun frames => by simp [stepOpen, Complete, plain]

/-- A callable adds nothing to what is around it. -/
theorem Adds.callable {body : List Stmt} (h : Adds (tallyOf body) inner) (code : v.body? = some body)
    : Adds ⟨0, 0⟩ (Walk.inside v inner) :=
  h.bracket fun frames => by
    rw [addOpen_zero]
    simp [stepOpen, Complete, code, addOpen, ComplexityRecord.ofBody]

end Walk

-- Tallies of items

def Item.tally : Item → ComplexityRecord
  | unit u => tallyOf u.statements
  | part p => p.tally
  | member _ => ⟨0, 0⟩

theorem sum_bodyItems (body : List Stmt) : sum ((bodyItems body).map Item.tally) = tallyOf body := by
  rw [bodyItems, Part.stmts, List.map_map, List.map_map]
  rfl

/-- A callable counts for itself, and anything else for what it stands in. -/
theorem Visited.tally {item : Item} {written : List Item} (h : Visited r item v written)
    : (∃ body, v.body? = some body ∧ item.tally = ⟨0, 0⟩ ∧ sum (written.map Item.tally) = tallyOf body)
      ∨ v.body? = none ∧ item.tally = .add (.ofVisit v) (sum (written.map Item.tally)) := by
  have marker (id : NodeId) : (Part.stmt (.declared id)).tally = ⟨0, 0⟩ := by
    rw [Part.tally_eq]
    rfl
  cases h with
  | unit u =>
    refine .inr ⟨rfl, ?_⟩
    rw [sum_bodyItems]
    simp [Item.tally, ComplexityRecord.ofVisit]
  | @part p v visit =>
    obtain ⟨plain, same⟩ := Part.visit?_plain visit
    refine .inr ⟨plain, ?_⟩
    rw [same, List.map_map]
    exact p.tally_eq
  | @type id t found =>
    have nothing (ids : List NodeId) : sum ((ids.map Item.member).map Item.tally) = ⟨0, 0⟩ := by
      induction ids with
      | nil => rfl
      | cons _ _ ih =>
        rw [List.map_cons, List.map_cons, ComplexityRecord.sum_cons, ih]
        rfl
    refine .inr ⟨rfl, ?_⟩
    rw [nothing]
    exact marker id
  | function found => exact .inl ⟨_, rfl, marker _, sum_bodyItems _⟩
  | method found => exact .inl ⟨_, rfl, rfl, sum_bodyItems _⟩
  | property found => exact .inr ⟨rfl, rfl⟩

/-- A walk adds the tallies of its items to the innermost callable. -/
theorem Walked.adds {items : List Item} {w : Walk} (h : Walked r items w)
    : w.Adds (sum (items.map Item.tally)) := by
  induction h with
  | done => exact fun frames rest _ after => by simpa [Walk.done] using after rfl
  | @bare s items w declares _ ih =>
    have nothing : (Item.part (.stmt s)).tally = ⟨0, 0⟩ := Stmt.tally_of_declaration declares
    simpa [nothing] using ih
  | failed =>
    intro frames rest ended _
    rw [ended rfl]
    trivial
  | visit visited _ _ inner rest =>
    rw [List.map_cons, ComplexityRecord.sum_cons]
    refine .andThen ?_ rest
    rcases visited.tally with ⟨body, code, nothing, whole⟩ | ⟨plain, whole⟩
    · rw [nothing]
      exact (whole ▸ inner).callable code
    · rw [whole]
      exact inner.inside plain

/-- In a walk through units every callable is counted in full when it is left. -/
theorem Walk.tallied_units (r : Registry) (us : List CompilationUnit)
    : Tallied [] (units r us).events := by
  have all := (Walked.unitsTo r (r.size + 1) us).adds [] [] (fun _ => rfl) (fun _ => trivial)
  rwa [List.append_nil] at all

end DesignMetrics
