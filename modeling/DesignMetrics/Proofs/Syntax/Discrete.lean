import DesignMetrics.Proofs.Json.Printed
import DesignMetrics.Proofs.Syntax.Names
import DesignMetrics.Syntax.Fingerprint

/-! Syntax is written without fractions.
Line numbers and modifiers are natural numbers, and everything else is text, so what is written can be
read back up to the size of its numbers and the depth of its nesting.
-/

namespace DesignMetrics

open Json

namespace Json

@[simp] theorem isDiscrete_null : Json.null.isDiscrete := by rw [isDiscrete, isMadeOf]

@[simp] theorem isDiscrete_bool (b : Bool) : (Json.bool b).isDiscrete := by rw [isDiscrete, isMadeOf]

@[simp] theorem isDiscrete_string (s : String) : (Json.string s).isDiscrete := by rw [isDiscrete, isMadeOf]

theorem isDiscrete_ofNat {n : Nat} (h : n ≤ Numeral.wordMax) : (ofNat n).isDiscrete := by
  simp [ofNat, isDiscrete, isMadeOf, h]

@[simp] theorem isDiscrete_ofWord (n : UInt64) : (ofWord n).isDiscrete :=
  isDiscrete_ofNat (Nat.le_of_lt_succ n.toNat_lt)

@[simp] theorem isDiscrete_array_nil : (Json.array []).isDiscrete := by
  rw [isDiscrete, isMadeOf, areMadeOf]

@[simp] theorem isDiscrete_array_cons {j : Json} {rest : List Json}
    : (Json.array (j :: rest)).isDiscrete ↔ j.isDiscrete ∧ (Json.array rest).isDiscrete := by
  simp [isDiscrete, isMadeOf, areMadeOf]

@[simp] theorem isDiscrete_map {α : Type} {write : α → Json} {items : List α}
    : (Json.array (items.map write)).isDiscrete ↔ ∀ a ∈ items, (write a).isDiscrete := by
  induction items with
  | nil => simp
  | cons a items ih => simp [ih]

@[simp] theorem isDiscrete_object {fields : List (String × Json)}
    : (Json.object fields).isDiscrete ↔ ∀ f ∈ fields, f.2.isDiscrete := by
  rw [isDiscrete, isMadeOf]
  induction fields with
  | nil => simp [fieldsMadeOf]
  | cons f rest ih =>
    obtain ⟨k, j⟩ := f
    simp [fieldsMadeOf, ih]

@[simp] theorem isDiscrete_tagged {name : String} {value : Json}
    : (tagged name value).isDiscrete ↔ value.isDiscrete := by
  simp [tagged]

theorem isDiscrete_ofList {α : Type} {write : α → Json} (h : ∀ a, (write a).isDiscrete)
    (items : List α) : (ofList write items).isDiscrete :=
  isDiscrete_map.mpr fun a _ => h a

theorem isDiscrete_ofOption {α : Type} {write : α → Json} (h : ∀ a, (write a).isDiscrete)
    (x : Option α) : (ofOption write x).isDiscrete := by
  cases x with
  | none => exact isDiscrete_null
  | some a => exact h a

end Json

@[simp] theorem Span.isDiscrete_toJson (s : Span) : s.toJson.isDiscrete := by simp [toJson]

@[simp] theorem Modifiers.isDiscrete_toJson (m : Modifiers) : m.toJson.isDiscrete := by
  have small := m.bits.toNat_lt
  exact isDiscrete_ofNat (by simp only [Numeral.wordMax]; omega)

@[simp] theorem TypeRef.isDiscrete_toJson (t : TypeRef) : t.toJson.isDiscrete := by
  cases t <;> simp [toJson]

@[simp] theorem BinaryOp.isDiscrete_toJson (op : BinaryOp) : op.toJson.isDiscrete := by
  cases op <;> simp [toJson]

@[simp] theorem isDiscrete_typeHint (t : Option TypeRef)
    : (ofOption TypeRef.toJson t).isDiscrete :=
  isDiscrete_ofOption TypeRef.isDiscrete_toJson t

@[simp] theorem isDiscrete_name (s : Option String) : (ofOption .string s).isDiscrete :=
  isDiscrete_ofOption isDiscrete_string s

@[simp] theorem isDiscrete_types (ts : List TypeRef) : (ofList TypeRef.toJson ts).isDiscrete :=
  isDiscrete_ofList TypeRef.isDiscrete_toJson ts

@[simp] theorem isDiscrete_names (names : List String) : (ofList .string names).isDiscrete :=
  isDiscrete_ofList isDiscrete_string names

-- Lists

@[simp] theorem Expr.listToJson_eq (items : List Expr) : listToJson items = items.map toJson :=
  eq_map_of_cons rfl (fun _ _ => rfl) items

@[simp] theorem Stmt.listToJson_eq (items : List Stmt) : listToJson items = items.map toJson :=
  eq_map_of_cons rfl (fun _ _ => rfl) items

@[simp] theorem Param.listToJson_eq (items : List Param) : listToJson items = items.map toJson :=
  eq_map_of_cons rfl (fun _ _ => rfl) items

@[simp] theorem ElseIf.listToJson_eq (items : List ElseIf) : listToJson items = items.map toJson :=
  eq_map_of_cons rfl (fun _ _ => rfl) items

@[simp] theorem Case.listToJson_eq (items : List Case) : listToJson items = items.map toJson :=
  eq_map_of_cons rfl (fun _ _ => rfl) items

@[simp] theorem Catch.listToJson_eq (items : List Catch) : listToJson items = items.map toJson :=
  eq_map_of_cons rfl (fun _ _ => rfl) items

@[simp] theorem Member.listToJson_eq (items : List Member) : listToJson items = items.map toJson :=
  eq_map_of_cons rfl (fun _ _ => rfl) items

-- Parts

def Part.IsDiscrete : Part → Prop
  | stmt s => s.toJson.isDiscrete
  | expr e => e.toJson.isDiscrete

@[simp] theorem Part.isDiscrete_stmt {s : Stmt} : (stmt s).IsDiscrete ↔ s.toJson.isDiscrete := .rfl

@[simp] theorem Part.isDiscrete_expr {e : Expr} : (expr e).IsDiscrete ↔ e.toJson.isDiscrete := .rfl

open DesignMetrics.Part

@[simp] theorem isDiscrete_value {e : Option Expr}
    : (Expr.optionToJson e).isDiscrete ↔ All IsDiscrete (exprs e.toList) := by
  cases e <;> simp [Expr.optionToJson]

@[simp] theorem isDiscrete_body {body : Option (List Stmt)}
    : (Stmt.bodyToJson body).isDiscrete ↔ All IsDiscrete (stmts (body.getD [])) := by
  cases body <;> simp [Stmt.bodyToJson]

theorem Param.isDiscrete_iff {p : Param} : p.toJson.isDiscrete ↔ All IsDiscrete p.parts := by
  cases p
  simp [toJson, parts]

theorem MethodDecl.isDiscrete_iff {d : MethodDecl}
    : d.toJson.isDiscrete
      ↔ All IsDiscrete (stmts (d.body.getD [])) ∧ All IsDiscrete (d.params.flatMap Param.parts) := by
  cases d
  simp [toJson, Param.isDiscrete_iff, and_comm]

theorem FunctionDecl.isDiscrete_iff {d : FunctionDecl}
    : d.toJson.isDiscrete
      ↔ All IsDiscrete (stmts d.body) ∧ All IsDiscrete (d.params.flatMap Param.parts) := by
  cases d
  simp [toJson, Param.isDiscrete_iff, and_comm]

theorem Member.isDiscrete_iff {m : Member}
    : m.toJson.isDiscrete ↔ All IsDiscrete (stmts m.statements) ∧ All IsDiscrete m.values := by
  cases m with
  | method d => simpa [toJson, statements, values] using d.isDiscrete_iff
  | property d =>
    cases d
    simp [toJson, PropertyDecl.toJson, statements, values]
  | constant d =>
    cases d
    simp [toJson, ConstDecl.toJson, statements, values]

/-- A part is written without fractions if everything below it is. -/
theorem Part.isDiscrete_iff {p : Part} : p.IsDiscrete ↔ All IsDiscrete p.below := by
  simp only [below, children, held, values]
  cases p with
  | expr e =>
    have owner (c : ClassRef) : c.toJson.isDiscrete ↔ All IsDiscrete c.parts := by
      cases c <;> simp [ClassRef.toJson, ClassRef.parts]
    have name (m : MemberName) : m.toJson.isDiscrete ↔ All IsDiscrete m.parts := by
      cases m <;> simp [MemberName.toJson, MemberName.parts]
    cases e <;> simp [Expr.toJson, variant, Expr.parts, owner, name, Param.isDiscrete_iff]
  | stmt s =>
    have elseIf (e : ElseIf) : e.toJson.isDiscrete ↔ All IsDiscrete e.parts := by
      cases e
      simp [ElseIf.toJson, ElseIf.parts]
    have case (c : Case) : c.toJson.isDiscrete ↔ All IsDiscrete c.parts := by
      cases c
      simp [Case.toJson, Case.parts]
    have handler (c : Catch) : c.toJson.isDiscrete ↔ All IsDiscrete c.parts := by
      cases c
      simp [Catch.toJson, Catch.parts]
    cases s with
    | inNamespace d =>
      cases d
      simp [Stmt.toJson, Stmt.parts, Stmt.held, Stmt.values, NamespaceDecl.toJson]
    | classDecl d | interfaceDecl d =>
      cases d
      simp [Stmt.toJson, Stmt.parts, Stmt.held, Stmt.values, ClassDecl.toJson, InterfaceDecl.toJson,
        Member.isDiscrete_iff]
      grind
    | functionDecl d =>
      simpa [Stmt.toJson, Stmt.parts, Stmt.held, Stmt.values] using d.isDiscrete_iff
    | _ =>
      simp [Stmt.toJson, variant, Stmt.parts, elseIf, case, handler, Stmt.held, Stmt.values]

/-- No part is written with a fraction, by induction on what is below it. -/
theorem Part.isDiscrete (p : Part) : p.IsDiscrete :=
  belowInduction (fun _ below => isDiscrete_iff.mpr below) p

@[simp] theorem Stmt.isDiscrete_toJson (s : Stmt) : s.toJson.isDiscrete := (Part.stmt s).isDiscrete

@[simp] theorem Param.isDiscrete_toJson (p : Param) : p.toJson.isDiscrete :=
  Param.isDiscrete_iff.mpr fun q _ => q.isDiscrete

theorem MethodDecl.isDiscrete_toJson (d : MethodDecl) : d.toJson.isDiscrete :=
  MethodDecl.isDiscrete_iff.mpr ⟨fun p _ => p.isDiscrete, fun p _ => p.isDiscrete⟩

theorem FunctionDecl.isDiscrete_toJson (d : FunctionDecl) : d.toJson.isDiscrete :=
  FunctionDecl.isDiscrete_iff.mpr ⟨fun p _ => p.isDiscrete, fun p _ => p.isDiscrete⟩

end DesignMetrics
