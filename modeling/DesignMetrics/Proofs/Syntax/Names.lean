import DesignMetrics.Proofs.Syntax.Declarations

/-! The names that are declared anywhere in a file.
A declaration comes with bodies and with values: the defaults of parameters and properties and the
values of constants. A closure in any of them may declare more. Every name that is declared stands in a
namespace, which is the global one outside of all others.
-/

namespace DesignMetrics

def Member.values : Member → List Part
  | .method decl => decl.params.flatMap Param.parts
  | .property decl => Part.exprs decl.default.toList
  | .constant decl => [.expr decl.value]

def Stmt.values : Stmt → List Part
  | .classDecl decl => decl.members.flatMap Member.values
  | .interfaceDecl decl => decl.members.flatMap Member.values
  | .functionDecl decl => decl.params.flatMap Param.parts
  | _ => []

theorem Member.sizeOf_lt_of_mem_values {m : Member} {p : Part} (h : p ∈ m.values)
    : sizeOf p < 1 + sizeOf m := by
  cases m with
  | method decl =>
    have less := Part.sizeOf_lt_of_mem_params h
    cases decl
    simp at less ⊢
    omega
  | property decl =>
    have less := Part.sizeOf_lt_of_mem_option h
    cases decl
    simp at less ⊢
    omega
  | constant decl =>
    obtain rfl := List.mem_singleton.mp h
    cases decl
    simp
    omega

theorem Stmt.sizeOf_lt_of_mem_values {s : Stmt} {p : Part} (h : p ∈ s.values)
    : sizeOf p < 1 + sizeOf s := by
  have members {ms : List Member} (inside : p ∈ ms.flatMap Member.values)
      : sizeOf p < 1 + sizeOf ms := by
    obtain ⟨m, member, inner⟩ := List.mem_flatMap.mp inside
    have outer := List.sizeOf_lt_of_mem member
    have less := Member.sizeOf_lt_of_mem_values inner
    omega
  cases s with
  | classDecl decl | interfaceDecl decl =>
    have less := members h
    cases decl
    simp at less ⊢
    omega
  | functionDecl decl =>
    have less := Part.sizeOf_lt_of_mem_params h
    cases decl
    simp at less ⊢
    omega
  | _ => simp [values] at h

namespace Part

def values : Part → List Part
  | stmt s => s.values
  | expr _ => []

def below (p : Part) : List Part := p.children ++ (p.held ++ p.values)

theorem sizeOf_lt_of_mem_below {p q : Part} (h : p ∈ q.below) : sizeOf p < sizeOf q := by
  rcases List.mem_append.mp h with child | own
  · exact sizeOf_lt_of_mem_children child
  · rcases List.mem_append.mp own with inner | value
    · exact sizeOf_lt_of_mem_held inner
    · cases q with
      | stmt s =>
        have less := Stmt.sizeOf_lt_of_mem_values value
        simpa using less
      | expr e => simp [values] at value

/-- What holds of a part whenever it holds of everything below it holds of all parts. -/
theorem belowInduction {P : Part → Prop} (step : ∀ p, (∀ q ∈ p.below, P q) → P p) (p : Part) : P p :=
  step p fun q _ => belowInduction step q
termination_by sizeOf p
decreasing_by exact sizeOf_lt_of_mem_below (by assumption)

def All (P : Part → Prop) (parts : List Part) : Prop := ∀ p ∈ parts, P p

section

variable {P : Part → Prop} {p : Part} {parts more : List Part}

@[simp] theorem all_nil : All P [] := by simp [All]

@[simp] theorem all_cons : All P (p :: parts) ↔ P p ∧ All P parts := List.forall_mem_cons

@[simp] theorem all_append : All P (parts ++ more) ↔ All P parts ∧ All P more := List.forall_mem_append

@[simp] theorem all_flatMap {α : Type} {items : List α} {f : α → List Part}
    : All P (items.flatMap f) ↔ ∀ a ∈ items, All P (f a) :=
  List.forall_mem_flatMap

@[simp] theorem all_exprs {values : List Expr} : All P (exprs values) ↔ ∀ e ∈ values, P (.expr e) :=
  List.forall_mem_map

@[simp] theorem all_stmts {body : List Stmt} : All P (stmts body) ↔ ∀ s ∈ body, P (.stmt s) :=
  List.forall_mem_map

end

def name? : Part → Option String
  | stmt (.classDecl decl) => some decl.name
  | stmt (.interfaceDecl decl) => some decl.name
  | stmt (.functionDecl decl) => some decl.name
  | _ => none

def spaceBelow (around : String) : Part → String
  | stmt (.inNamespace decl) => decl.name.getD ""
  | _ => around

def names (around : String) (p : Part) : List (String × String) :=
  p.name?.toList.map (around, ·)
    ++ p.below.attach.flatMap fun ⟨q, _⟩ => q.names (p.spaceBelow around)
termination_by sizeOf p
decreasing_by exact sizeOf_lt_of_mem_below (by assumption)

theorem names_eq (around : String) (p : Part)
    : p.names around
      = p.name?.toList.map (around, ·) ++ p.below.flatMap (names (p.spaceBelow around)) := by
  rw [names, List.flatMap_subtype (fun _ _ => rfl), List.unattach_attach]

end Part

def SourceFile.names (file : SourceFile) : List (String × String) :=
  file.statements.flatMap fun s => (Part.stmt s).names ""

end DesignMetrics
