import DesignMetrics.Metric.Reference
import DesignMetrics.Proofs.Syntax.Declarations

/-! Syntax without regard to the spelling of references.
Folding brings every type name that refers to a type to lower case. The names that declarations give
stay as they are, so two files have the same folding if they differ in the spelling of references at
most.
-/

namespace DesignMetrics

def TypeRef.folded : TypeRef → TypeRef
  | .named name => .named (Text.lower name)
  | .selfType => .selfType
  | .parentType => .parentType
  | .staticType => .staticType
  | .scalar name => .scalar name

mutual

def Expr.folded : Expr → Expr
  | .literal text => .literal text
  | .var name => .var name
  | .name text => .name text
  | .array items => .array (Expr.foldedAll items)
  | .propertyFetch object property => .propertyFetch object.folded property.folded
  | .staticPropertyFetch owner property => .staticPropertyFetch owner.folded property
  | .classConstFetch owner constant => .classConstFetch owner.folded constant
  | .funcCall callee args => .funcCall callee.folded (Expr.foldedAll args)
  | .methodCall object method args =>
    .methodCall object.folded method.folded (Expr.foldedAll args)
  | .staticCall owner method args => .staticCall owner.folded method.folded (Expr.foldedAll args)
  | .newObject owner args => .newObject owner.folded (Expr.foldedAll args)
  | .instanceOf value owner => .instanceOf value.folded owner.folded
  | .closure params uses returnType body =>
    .closure (Param.foldedAll params) uses (returnType.map TypeRef.folded) (Stmt.foldedAll body)
  | .ternary cond chosen otherwise =>
    .ternary cond.folded (Expr.foldedOption chosen) otherwise.folded
  | .binary op operator left right => .binary op operator left.folded right.folded
  | .unary operator operand => .unary operator operand.folded
  | .assign target operator value => .assign target.folded operator value.folded
  | .other parts => .other (Expr.foldedAll parts)

def Expr.foldedAll : List Expr → List Expr
  | [] => []
  | e :: rest => e.folded :: Expr.foldedAll rest

def Expr.foldedOption : Option Expr → Option Expr
  | none => none
  | some e => some e.folded

def ClassRef.folded : ClassRef → ClassRef
  | .type t => .type t.folded
  | .dynamic value => .dynamic value.folded

def MemberName.folded : MemberName → MemberName
  | .ident name => .ident name
  | .dynamic value => .dynamic value.folded

def Param.folded : Param → Param
  | ⟨name, typeHint, default, byRef, variadic⟩ =>
    ⟨name, typeHint.map TypeRef.folded, Expr.foldedOption default, byRef, variadic⟩

def Param.foldedAll : List Param → List Param
  | [] => []
  | p :: rest => p.folded :: Param.foldedAll rest

def Stmt.folded : Stmt → Stmt
  | .inNamespace decl => .inNamespace decl.folded
  | .classDecl decl => .classDecl decl.folded
  | .interfaceDecl decl => .interfaceDecl decl.folded
  | .functionDecl decl => .functionDecl decl.folded
  | .declared id => .declared id
  | .expr value => .expr value.folded
  | .echo values => .echo (Expr.foldedAll values)
  | .ret value => .ret (Expr.foldedOption value)
  | .throw value => .throw value.folded
  | .ifElse cond body elseIfs otherwise =>
    .ifElse cond.folded (Stmt.foldedAll body) (ElseIf.foldedAll elseIfs)
      (Stmt.foldedBody otherwise)
  | .whileLoop cond body => .whileLoop cond.folded (Stmt.foldedAll body)
  | .doWhile body cond => .doWhile (Stmt.foldedAll body) cond.folded
  | .forLoop init cond step body =>
    .forLoop (Expr.foldedAll init) (Expr.foldedAll cond) (Expr.foldedAll step)
      (Stmt.foldedAll body)
  | .forEach subject key value body =>
    .forEach subject.folded (Expr.foldedOption key) (Expr.foldedOption value)
      (Stmt.foldedAll body)
  | .switch subject cases => .switch subject.folded (Case.foldedAll cases)
  | .tryCatch body catches cleanup =>
    .tryCatch (Stmt.foldedAll body) (Catch.foldedAll catches) (Stmt.foldedBody cleanup)
  | .block body => .block (Stmt.foldedAll body)
  | .other parts => .other (Expr.foldedAll parts)

def Stmt.foldedAll : List Stmt → List Stmt
  | [] => []
  | s :: rest => s.folded :: Stmt.foldedAll rest

def Stmt.foldedBody : Option (List Stmt) → Option (List Stmt)
  | none => none
  | some body => some (Stmt.foldedAll body)

def ElseIf.folded : ElseIf → ElseIf
  | ⟨cond, body⟩ => ⟨cond.folded, Stmt.foldedAll body⟩

def ElseIf.foldedAll : List ElseIf → List ElseIf
  | [] => []
  | e :: rest => e.folded :: ElseIf.foldedAll rest

def Case.folded : Case → Case
  | ⟨test, body⟩ => ⟨Expr.foldedOption test, Stmt.foldedAll body⟩

def Case.foldedAll : List Case → List Case
  | [] => []
  | c :: rest => c.folded :: Case.foldedAll rest

def Catch.folded : Catch → Catch
  | ⟨types, binder, body⟩ => ⟨types.map TypeRef.folded, binder, Stmt.foldedAll body⟩

def Catch.foldedAll : List Catch → List Catch
  | [] => []
  | c :: rest => c.folded :: Catch.foldedAll rest

def NamespaceDecl.folded : NamespaceDecl → NamespaceDecl
  | ⟨name, body, span⟩ => ⟨name, Stmt.foldedAll body, span⟩

def ClassDecl.folded : ClassDecl → ClassDecl
  | ⟨name, modifiers, parent, interfaces, members, span⟩ =>
    ⟨name, modifiers, parent.map Text.lower, interfaces.map Text.lower, Member.foldedAll members,
      span⟩

def InterfaceDecl.folded : InterfaceDecl → InterfaceDecl
  | ⟨name, parents, members, span⟩ =>
    ⟨name, parents.map Text.lower, Member.foldedAll members, span⟩

def FunctionDecl.folded : FunctionDecl → FunctionDecl
  | ⟨name, params, returnType, throws, body, span⟩ =>
    ⟨name, Param.foldedAll params, returnType.map TypeRef.folded, throws.map TypeRef.folded,
      Stmt.foldedAll body, span⟩

def Member.folded : Member → Member
  | .method decl => .method decl.folded
  | .property decl => .property decl.folded
  | .constant decl => .constant decl.folded

def Member.foldedAll : List Member → List Member
  | [] => []
  | m :: rest => m.folded :: Member.foldedAll rest

def MethodDecl.folded : MethodDecl → MethodDecl
  | ⟨name, modifiers, params, returnType, throws, body, span⟩ =>
    ⟨name, modifiers, Param.foldedAll params, returnType.map TypeRef.folded,
      throws.map TypeRef.folded, Stmt.foldedBody body, span⟩

def PropertyDecl.folded : PropertyDecl → PropertyDecl
  | ⟨name, modifiers, typeHint, default, span⟩ =>
    ⟨name, modifiers, typeHint.map TypeRef.folded, Expr.foldedOption default, span⟩

def ConstDecl.folded : ConstDecl → ConstDecl
  | ⟨name, value, span⟩ => ⟨name, value.folded, span⟩

end

def Part.folded : Part → Part
  | stmt s => stmt s.folded
  | expr e => expr e.folded

def SourceFile.folded (file : SourceFile) : SourceFile := ⟨file.path, Stmt.foldedAll file.statements⟩

@[simp] theorem Expr.foldedAll_eq (items : List Expr) : Expr.foldedAll items = items.map Expr.folded :=
  eq_map_of_cons rfl (fun _ _ => rfl) items

@[simp] theorem Param.foldedAll_eq (items : List Param)
    : Param.foldedAll items = items.map Param.folded :=
  eq_map_of_cons rfl (fun _ _ => rfl) items

@[simp] theorem Stmt.foldedAll_eq (items : List Stmt) : Stmt.foldedAll items = items.map Stmt.folded :=
  eq_map_of_cons rfl (fun _ _ => rfl) items

@[simp] theorem ElseIf.foldedAll_eq (items : List ElseIf)
    : ElseIf.foldedAll items = items.map ElseIf.folded :=
  eq_map_of_cons rfl (fun _ _ => rfl) items

@[simp] theorem Case.foldedAll_eq (items : List Case) : Case.foldedAll items = items.map Case.folded :=
  eq_map_of_cons rfl (fun _ _ => rfl) items

@[simp] theorem Catch.foldedAll_eq (items : List Catch)
    : Catch.foldedAll items = items.map Catch.folded :=
  eq_map_of_cons rfl (fun _ _ => rfl) items

@[simp] theorem Member.foldedAll_eq (items : List Member)
    : Member.foldedAll items = items.map Member.folded :=
  eq_map_of_cons rfl (fun _ _ => rfl) items

@[simp] theorem Expr.foldedOption_eq (value : Option Expr)
    : Expr.foldedOption value = value.map Expr.folded := by
  cases value <;> rfl

@[simp] theorem Stmt.foldedBody_eq (body : Option (List Stmt))
    : Stmt.foldedBody body = body.map (List.map Stmt.folded) := by
  cases body <;> simp [Stmt.foldedBody]

theorem Param.folded_eq (p : Param)
    : p.folded
      = { p with typeHint := p.typeHint.map TypeRef.folded, default := p.default.map Expr.folded } := by
  cases p
  simp [Param.folded]

theorem ElseIf.folded_eq (e : ElseIf)
    : e.folded = ⟨e.cond.folded, e.body.map Stmt.folded⟩ := by
  cases e
  simp [ElseIf.folded]

theorem Case.folded_eq (c : Case)
    : c.folded = ⟨c.test.map Expr.folded, c.body.map Stmt.folded⟩ := by
  cases c
  simp [Case.folded]

theorem Catch.folded_eq (c : Catch)
    : c.folded = { c with types := c.types.map TypeRef.folded, body := c.body.map Stmt.folded } := by
  cases c
  simp [Catch.folded]

theorem NamespaceDecl.folded_eq (d : NamespaceDecl)
    : d.folded = { d with body := d.body.map Stmt.folded } := by
  cases d
  simp [NamespaceDecl.folded]

theorem ClassDecl.folded_eq (d : ClassDecl)
    : d.folded
      = { d with
          parent := d.parent.map Text.lower
          interfaces := d.interfaces.map Text.lower
          members := d.members.map Member.folded } := by
  cases d
  simp [ClassDecl.folded]

theorem InterfaceDecl.folded_eq (d : InterfaceDecl)
    : d.folded
      = { d with parents := d.parents.map Text.lower, members := d.members.map Member.folded } := by
  cases d
  simp [InterfaceDecl.folded]

theorem FunctionDecl.folded_eq (d : FunctionDecl)
    : d.folded
      = { d with
          params := d.params.map Param.folded
          returnType := d.returnType.map TypeRef.folded
          throws := d.throws.map TypeRef.folded
          body := d.body.map Stmt.folded } := by
  cases d
  simp [FunctionDecl.folded]

theorem MethodDecl.folded_eq (d : MethodDecl)
    : d.folded
      = { d with
          params := d.params.map Param.folded
          returnType := d.returnType.map TypeRef.folded
          throws := d.throws.map TypeRef.folded
          body := d.body.map (List.map Stmt.folded) } := by
  cases d
  simp [MethodDecl.folded]

theorem PropertyDecl.folded_eq (d : PropertyDecl)
    : d.folded
      = { d with typeHint := d.typeHint.map TypeRef.folded, default := d.default.map Expr.folded } := by
  cases d
  simp [PropertyDecl.folded]

namespace Part

@[simp] theorem map_folded_stmts (body : List Stmt)
    : (stmts body).map folded = stmts (body.map Stmt.folded) := by
  simp [stmts, folded]

@[simp] theorem map_folded_exprs (values : List Expr)
    : (exprs values).map folded = exprs (values.map Expr.folded) := by
  simp [exprs, folded]

/-- The children of a folded part are its children, folded. -/
theorem children_folded (p : Part) : p.folded.children = p.children.map folded := by
  have items {α : Type} (fold : α → α) (parts : α → List Part)
      (each : ∀ a, parts (fold a) = (parts a).map folded) (l : List α)
      : (l.map fold).flatMap parts = (l.flatMap parts).map folded := by
    rw [List.flatMap_map, List.map_flatMap]
    exact congrArg (l.flatMap ·) (funext each)
  have owner (c : ClassRef) : c.folded.parts = c.parts.map folded := by
    cases c <;> rfl
  have member (m : MemberName) : m.folded.parts = m.parts.map folded := by
    cases m <;> rfl
  have value (o : Option Expr) : exprs (o.map Expr.folded).toList = (exprs o.toList).map folded := by
    cases o <;> rfl
  have body (o : Option (List Stmt))
      : stmts ((o.map (List.map Stmt.folded)).getD []) = (stmts (o.getD [])).map folded := by
    cases o <;> simp
  cases p with
  | expr e =>
    have params := items Param.folded Param.parts fun p => by simp [Param.folded_eq, Param.parts, value]
    cases e <;> simp [folded, children, Expr.folded, Expr.parts, owner, member, value, params]
  | stmt s =>
    have elseIfs := items ElseIf.folded ElseIf.parts fun e => by
      simp [ElseIf.folded_eq, ElseIf.parts, folded]
    have cases := items Case.folded Case.parts fun c => by simp [Case.folded_eq, Case.parts, value]
    have catches := items Catch.folded Catch.parts fun c => by simp [Catch.folded_eq, Catch.parts]
    cases s <;>
      simp [folded, children, Stmt.folded, Stmt.parts, NamespaceDecl.folded_eq, value, body, elseIfs,
        cases, catches]

@[simp] theorem marker?_folded (p : Part) : p.folded.marker? = p.marker? := by
  cases p with
  | expr e => rfl
  | stmt s => cases s <;> simp [folded, Stmt.folded, marker?]

end Part

namespace Stmt

@[simp] theorem isDeclaration_folded (s : Stmt) : s.folded.isDeclaration = s.isDeclaration := by
  cases s <;> rfl

/-- The bodies of a folded statement are its bodies, folded. -/
theorem bodies_folded (s : Stmt) : s.folded.bodies = s.bodies.map (List.map folded) := by
  have elseIfs : ElseIf.body ∘ ElseIf.folded = List.map folded ∘ ElseIf.body :=
    funext fun e => by simp [ElseIf.folded_eq]
  have cases : Case.body ∘ Case.folded = List.map folded ∘ Case.body :=
    funext fun c => by simp [Case.folded_eq]
  have catches : Catch.body ∘ Catch.folded = List.map folded ∘ Catch.body :=
    funext fun c => by simp [Catch.folded_eq]
  cases s <;>
    simp [folded, bodies, NamespaceDecl.folded_eq, Option.toList_map, elseIfs, cases, catches]

/-- Bodies can be folded before or after they are put into a statement. -/
theorem folded_rebuild (s : Stmt) (new : List (List Stmt))
    : (s.rebuild new).folded = s.folded.rebuild (new.map (List.map folded)) := by
  have dealt {α : Type} (fold : α → α) (put : α → List Stmt → α)
      (each : ∀ a b, fold (put a b) = put (fold a) (b.map folded)) (items : List α)
      (new : List (List Stmt))
      : (items.zipWith put new).map fold
        = (items.map fold).zipWith put (new.map (List.map folded)) := by
    rw [List.map_zipWith, List.zipWith_map]
    exact congrArg (fun f => List.zipWith f items new) (funext₂ each)
  have elseIfs := dealt ElseIf.folded ElseIf.withBody fun e b => by
    simp [ElseIf.folded_eq, ElseIf.withBody]
  have cases := dealt Case.folded Case.withBody fun c b => by simp [Case.folded_eq, Case.withBody]
  have catches := dealt Catch.folded Catch.withBody fun c b => by
    simp [Catch.folded_eq, Catch.withBody]
  cases s <;> cases new <;>
    simp [folded, rebuild, NamespaceDecl.folded_eq, elseIfs, cases, catches]

theorem caughtTypes_folded (s : Stmt) : s.folded.caughtTypes = s.caughtTypes.map TypeRef.folded := by
  cases s with
  | tryCatch body catches cleanup =>
    simp [folded, caughtTypes, List.flatMap_map, List.map_flatMap, Catch.folded_eq]
  | _ => rfl

end Stmt

theorem Expr.classOperand?_folded (e : Expr)
    : e.folded.classOperand? = e.classOperand?.map ClassRef.folded := by
  cases e <;> rfl

end DesignMetrics
