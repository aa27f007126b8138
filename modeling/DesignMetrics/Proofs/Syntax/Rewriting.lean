import DesignMetrics.Proofs.Syntax.Folding
import DesignMetrics.Proofs.Syntax.Names
import DesignMetrics.Syntax.Render

/-! Statements that are rewritten wherever they stand.
A rewriting goes through all code, also through the bodies of declarations and closures, and replaces
each statement after those inside it. Everything else stays as it is.
-/

namespace DesignMetrics

-- Rewriting

section

variable (f : Stmt → Stmt)

mutual

def Expr.rewrite : Expr → Expr
  | .literal text => .literal text
  | .var name => .var name
  | .name text => .name text
  | .array items => .array (Expr.rewriteAll items)
  | .propertyFetch object property => .propertyFetch object.rewrite property.rewrite
  | .staticPropertyFetch owner property => .staticPropertyFetch owner.rewrite property
  | .classConstFetch owner constant => .classConstFetch owner.rewrite constant
  | .funcCall callee args => .funcCall callee.rewrite (Expr.rewriteAll args)
  | .methodCall object method args =>
    .methodCall object.rewrite method.rewrite (Expr.rewriteAll args)
  | .staticCall owner method args => .staticCall owner.rewrite method.rewrite (Expr.rewriteAll args)
  | .newObject owner args => .newObject owner.rewrite (Expr.rewriteAll args)
  | .instanceOf value owner => .instanceOf value.rewrite owner.rewrite
  | .closure params uses returnType body =>
    .closure (Param.rewriteAll params) uses returnType (Stmt.rewriteAll body)
  | .ternary cond chosen otherwise =>
    .ternary cond.rewrite (Expr.rewriteOption chosen) otherwise.rewrite
  | .binary op operator left right => .binary op operator left.rewrite right.rewrite
  | .unary operator operand => .unary operator operand.rewrite
  | .assign target operator value => .assign target.rewrite operator value.rewrite
  | .other parts => .other (Expr.rewriteAll parts)

def Expr.rewriteAll : List Expr → List Expr
  | [] => []
  | e :: rest => e.rewrite :: Expr.rewriteAll rest

def Expr.rewriteOption : Option Expr → Option Expr
  | none => none
  | some e => some e.rewrite

def ClassRef.rewrite : ClassRef → ClassRef
  | .type t => .type t
  | .dynamic value => .dynamic value.rewrite

def MemberName.rewrite : MemberName → MemberName
  | .ident name => .ident name
  | .dynamic value => .dynamic value.rewrite

def Param.rewrite : Param → Param
  | ⟨name, typeHint, default, byRef, variadic⟩ =>
    ⟨name, typeHint, Expr.rewriteOption default, byRef, variadic⟩

def Param.rewriteAll : List Param → List Param
  | [] => []
  | p :: rest => p.rewrite :: Param.rewriteAll rest

def Stmt.inner : Stmt → Stmt
  | .inNamespace decl => .inNamespace decl.rewrite
  | .classDecl decl => .classDecl decl.rewrite
  | .interfaceDecl decl => .interfaceDecl decl.rewrite
  | .functionDecl decl => .functionDecl decl.rewrite
  | .declared id => .declared id
  | .expr value => .expr value.rewrite
  | .echo values => .echo (Expr.rewriteAll values)
  | .ret value => .ret (Expr.rewriteOption value)
  | .throw value => .throw value.rewrite
  | .ifElse cond body elseIfs otherwise =>
    .ifElse cond.rewrite (Stmt.rewriteAll body) (ElseIf.rewriteAll elseIfs)
      (Stmt.rewriteBody otherwise)
  | .whileLoop cond body => .whileLoop cond.rewrite (Stmt.rewriteAll body)
  | .doWhile body cond => .doWhile (Stmt.rewriteAll body) cond.rewrite
  | .forLoop init cond step body =>
    .forLoop (Expr.rewriteAll init) (Expr.rewriteAll cond) (Expr.rewriteAll step)
      (Stmt.rewriteAll body)
  | .forEach subject key value body =>
    .forEach subject.rewrite (Expr.rewriteOption key) (Expr.rewriteOption value)
      (Stmt.rewriteAll body)
  | .switch subject cases => .switch subject.rewrite (Case.rewriteAll cases)
  | .tryCatch body catches cleanup =>
    .tryCatch (Stmt.rewriteAll body) (Catch.rewriteAll catches) (Stmt.rewriteBody cleanup)
  | .block body => .block (Stmt.rewriteAll body)
  | .other parts => .other (Expr.rewriteAll parts)

def Stmt.rewriteAll : List Stmt → List Stmt
  | [] => []
  | s :: rest => f s.inner :: Stmt.rewriteAll rest

def Stmt.rewriteBody : Option (List Stmt) → Option (List Stmt)
  | none => none
  | some body => some (Stmt.rewriteAll body)

def ElseIf.rewrite : ElseIf → ElseIf
  | ⟨cond, body⟩ => ⟨cond.rewrite, Stmt.rewriteAll body⟩

def ElseIf.rewriteAll : List ElseIf → List ElseIf
  | [] => []
  | e :: rest => e.rewrite :: ElseIf.rewriteAll rest

def Case.rewrite : Case → Case
  | ⟨test, body⟩ => ⟨Expr.rewriteOption test, Stmt.rewriteAll body⟩

def Case.rewriteAll : List Case → List Case
  | [] => []
  | c :: rest => c.rewrite :: Case.rewriteAll rest

def Catch.rewrite : Catch → Catch
  | ⟨types, binder, body⟩ => ⟨types, binder, Stmt.rewriteAll body⟩

def Catch.rewriteAll : List Catch → List Catch
  | [] => []
  | c :: rest => c.rewrite :: Catch.rewriteAll rest

def NamespaceDecl.rewrite : NamespaceDecl → NamespaceDecl
  | ⟨name, body, span⟩ => ⟨name, Stmt.rewriteAll body, span⟩

def ClassDecl.rewrite : ClassDecl → ClassDecl
  | ⟨name, modifiers, parent, interfaces, members, span⟩ =>
    ⟨name, modifiers, parent, interfaces, Member.rewriteAll members, span⟩

def InterfaceDecl.rewrite : InterfaceDecl → InterfaceDecl
  | ⟨name, parents, members, span⟩ => ⟨name, parents, Member.rewriteAll members, span⟩

def FunctionDecl.rewrite : FunctionDecl → FunctionDecl
  | ⟨name, params, returnType, throws, body, span⟩ =>
    ⟨name, Param.rewriteAll params, returnType, throws, Stmt.rewriteAll body, span⟩

def Member.rewrite : Member → Member
  | .method decl => .method decl.rewrite
  | .property decl => .property decl.rewrite
  | .constant decl => .constant decl.rewrite

def Member.rewriteAll : List Member → List Member
  | [] => []
  | m :: rest => m.rewrite :: Member.rewriteAll rest

def MethodDecl.rewrite : MethodDecl → MethodDecl
  | ⟨name, modifiers, params, returnType, throws, body, span⟩ =>
    ⟨name, modifiers, Param.rewriteAll params, returnType, throws, Stmt.rewriteBody body, span⟩

def PropertyDecl.rewrite : PropertyDecl → PropertyDecl
  | ⟨name, modifiers, typeHint, default, span⟩ =>
    ⟨name, modifiers, typeHint, Expr.rewriteOption default, span⟩

def ConstDecl.rewrite : ConstDecl → ConstDecl
  | ⟨name, value, span⟩ => ⟨name, value.rewrite, span⟩

end

def Stmt.rewrite (s : Stmt) : Stmt := f (s.inner f)

def Part.rewrite : Part → Part
  | stmt s => stmt (s.rewrite f)
  | expr e => expr (e.rewrite f)

def Part.inner : Part → Part
  | stmt s => stmt (s.inner f)
  | expr e => expr (e.rewrite f)

def SourceFile.rewrite (file : SourceFile) : SourceFile := ⟨file.path, Stmt.rewriteAll f file.statements⟩

end

variable {f : Stmt → Stmt}

-- Rewriting item by item

@[simp] theorem Expr.rewriteAll_eq (items : List Expr)
    : Expr.rewriteAll f items = items.map (Expr.rewrite f) :=
  eq_map_of_cons rfl (fun _ _ => rfl) items

@[simp] theorem Param.rewriteAll_eq (items : List Param)
    : Param.rewriteAll f items = items.map (Param.rewrite f) :=
  eq_map_of_cons rfl (fun _ _ => rfl) items

@[simp] theorem Stmt.rewriteAll_eq (items : List Stmt)
    : Stmt.rewriteAll f items = items.map (Stmt.rewrite f) :=
  eq_map_of_cons rfl (fun _ _ => rfl) items

@[simp] theorem ElseIf.rewriteAll_eq (items : List ElseIf)
    : ElseIf.rewriteAll f items = items.map (ElseIf.rewrite f) :=
  eq_map_of_cons rfl (fun _ _ => rfl) items

@[simp] theorem Case.rewriteAll_eq (items : List Case)
    : Case.rewriteAll f items = items.map (Case.rewrite f) :=
  eq_map_of_cons rfl (fun _ _ => rfl) items

@[simp] theorem Catch.rewriteAll_eq (items : List Catch)
    : Catch.rewriteAll f items = items.map (Catch.rewrite f) :=
  eq_map_of_cons rfl (fun _ _ => rfl) items

@[simp] theorem Member.rewriteAll_eq (items : List Member)
    : Member.rewriteAll f items = items.map (Member.rewrite f) :=
  eq_map_of_cons rfl (fun _ _ => rfl) items

@[simp] theorem Expr.rewriteOption_eq (value : Option Expr)
    : Expr.rewriteOption f value = value.map (Expr.rewrite f) := by
  cases value <;> rfl

@[simp] theorem Stmt.rewriteBody_eq (body : Option (List Stmt))
    : Stmt.rewriteBody f body = body.map (List.map (Stmt.rewrite f)) := by
  cases body <;> simp [Stmt.rewriteBody]

-- Rewriting field by field

theorem Param.rewrite_eq (p : Param)
    : p.rewrite f = { p with default := p.default.map (Expr.rewrite f) } := by
  cases p
  simp [Param.rewrite]

theorem ElseIf.rewrite_eq (e : ElseIf)
    : e.rewrite f = ⟨e.cond.rewrite f, e.body.map (Stmt.rewrite f)⟩ := by
  cases e
  simp [ElseIf.rewrite]

theorem Case.rewrite_eq (c : Case)
    : c.rewrite f = ⟨c.test.map (Expr.rewrite f), c.body.map (Stmt.rewrite f)⟩ := by
  cases c
  simp [Case.rewrite]

theorem Catch.rewrite_eq (c : Catch)
    : c.rewrite f = { c with body := c.body.map (Stmt.rewrite f) } := by
  cases c
  simp [Catch.rewrite]

theorem NamespaceDecl.rewrite_eq (d : NamespaceDecl)
    : d.rewrite f = { d with body := d.body.map (Stmt.rewrite f) } := by
  cases d
  simp [NamespaceDecl.rewrite]

theorem ClassDecl.rewrite_eq (d : ClassDecl)
    : d.rewrite f = { d with members := d.members.map (Member.rewrite f) } := by
  cases d
  simp [ClassDecl.rewrite]

theorem InterfaceDecl.rewrite_eq (d : InterfaceDecl)
    : d.rewrite f = { d with members := d.members.map (Member.rewrite f) } := by
  cases d
  simp [InterfaceDecl.rewrite]

theorem FunctionDecl.rewrite_eq (d : FunctionDecl)
    : d.rewrite f
      = { d with
          params := d.params.map (Param.rewrite f)
          body := d.body.map (Stmt.rewrite f) } := by
  cases d
  simp [FunctionDecl.rewrite]

theorem MethodDecl.rewrite_eq (d : MethodDecl)
    : d.rewrite f
      = { d with
          params := d.params.map (Param.rewrite f)
          body := d.body.map (List.map (Stmt.rewrite f)) } := by
  cases d
  simp [MethodDecl.rewrite]

theorem PropertyDecl.rewrite_eq (d : PropertyDecl)
    : d.rewrite f = { d with default := d.default.map (Expr.rewrite f) } := by
  cases d
  simp [PropertyDecl.rewrite]

-- Parts

namespace Part

@[simp] theorem map_rewrite_stmts (body : List Stmt)
    : (stmts body).map (rewrite f) = stmts (body.map (Stmt.rewrite f)) := by
  simp [stmts, rewrite]

@[simp] theorem map_rewrite_exprs (values : List Expr)
    : (exprs values).map (rewrite f) = exprs (values.map (Expr.rewrite f)) := by
  simp [exprs, rewrite]

/-- Rewriting items rewrites the parts in them. -/
theorem flatMap_map_rewrite {α : Type} {g : α → α} {parts : α → List Part}
    (each : ∀ a, parts (g a) = (parts a).map (rewrite f)) (items : List α)
    : (items.map g).flatMap parts = (items.flatMap parts).map (rewrite f) := by
  rw [List.flatMap_map, List.map_flatMap]
  exact congrArg (items.flatMap ·) (funext each)

theorem exprs_map_rewrite (o : Option Expr)
    : exprs (o.map (Expr.rewrite f)).toList = (exprs o.toList).map (rewrite f) := by
  cases o <;> rfl

end Part

/-- The parts of a rewritten expression are its parts, rewritten. -/
theorem Expr.parts_rewrite (e : Expr) : (e.rewrite f).parts = e.parts.map (Part.rewrite f) := by
  have owner (c : ClassRef) : (c.rewrite f).parts = c.parts.map (Part.rewrite f) := by
    cases c <;> rfl
  have member (m : MemberName) : (m.rewrite f).parts = m.parts.map (Part.rewrite f) := by
    cases m <;> rfl
  have params := Part.flatMap_map_rewrite (g := Param.rewrite f) fun p =>
    show Param.parts _ = (Param.parts p).map (Part.rewrite f) by
      simp [Param.rewrite_eq, Param.parts, Part.exprs_map_rewrite]
  cases e <;>
    simp [Expr.rewrite, Expr.parts, owner, member, params, Part.exprs_map_rewrite, Part.rewrite]

namespace Stmt

/-- Inside a statement the parts are rewritten. -/
theorem parts_inner (s : Stmt) : (s.inner f).parts = s.parts.map (Part.rewrite f) := by
  have body (o : Option (List Stmt))
      : Part.stmts ((o.map (List.map (rewrite f))).getD [])
        = (Part.stmts (o.getD [])).map (Part.rewrite f) := by
    cases o <;> simp
  have elseIfs := Part.flatMap_map_rewrite (g := ElseIf.rewrite f) fun e =>
    show ElseIf.parts _ = (ElseIf.parts e).map (Part.rewrite f) by
      simp [ElseIf.rewrite_eq, ElseIf.parts, Part.rewrite]
  have cases := Part.flatMap_map_rewrite (g := Case.rewrite f) fun c =>
    show Case.parts _ = (Case.parts c).map (Part.rewrite f) by
      simp [Case.rewrite_eq, Case.parts, Part.exprs_map_rewrite]
  have catches := Part.flatMap_map_rewrite (g := Catch.rewrite f) fun c =>
    show Catch.parts _ = (Catch.parts c).map (Part.rewrite f) by
      simp [Catch.rewrite_eq, Catch.parts]
  cases s <;>
    simp [inner, parts, NamespaceDecl.rewrite_eq, body, elseIfs, cases, catches,
      Part.exprs_map_rewrite, Part.rewrite]

end Stmt

theorem Part.children_inner (p : Part) : (p.inner f).children = p.children.map (rewrite f) := by
  cases p with
  | stmt s => exact s.parts_inner
  | expr e => exact e.parts_rewrite

theorem Part.marker?_inner (p : Part) : (p.inner f).marker? = p.marker? := by
  cases p with
  | stmt s => cases s <;> rfl
  | expr e => rfl

namespace Stmt

@[simp] theorem isDeclaration_inner (s : Stmt) : (s.inner f).isDeclaration = s.isDeclaration := by
  cases s <;> rfl

/-- Inside a statement the bodies are rewritten. -/
theorem bodies_inner (s : Stmt) : (s.inner f).bodies = s.bodies.map (List.map (rewrite f)) := by
  have elseIfs : ElseIf.body ∘ ElseIf.rewrite f = List.map (rewrite f) ∘ ElseIf.body :=
    funext fun e => by simp [ElseIf.rewrite_eq]
  have cases : Case.body ∘ Case.rewrite f = List.map (rewrite f) ∘ Case.body :=
    funext fun c => by simp [Case.rewrite_eq]
  have catches : Catch.body ∘ Catch.rewrite f = List.map (rewrite f) ∘ Catch.body :=
    funext fun c => by simp [Catch.rewrite_eq]
  cases s <;>
    simp [inner, bodies, NamespaceDecl.rewrite_eq, Option.toList_map, elseIfs, cases, catches]

/-- Bodies can be rewritten before or after they are put into a statement. -/
theorem inner_rebuild (s : Stmt) (new : List (List Stmt))
    : (s.rebuild new).inner f = (s.inner f).rebuild (new.map (List.map (rewrite f))) := by
  have dealt {α : Type} (g : α → α) (put : α → List Stmt → α)
      (each : ∀ a b, g (put a b) = put (g a) (b.map (rewrite f))) (items : List α)
      (new : List (List Stmt))
      : (items.zipWith put new).map g
        = (items.map g).zipWith put (new.map (List.map (rewrite f))) := by
    rw [List.map_zipWith, List.zipWith_map]
    exact congrArg (fun g => List.zipWith g items new) (funext₂ each)
  have elseIfs := dealt (ElseIf.rewrite f) ElseIf.withBody fun e b => by
    simp [ElseIf.rewrite_eq, ElseIf.withBody]
  have cases := dealt (Case.rewrite f) Case.withBody fun c b => by
    simp [Case.rewrite_eq, Case.withBody]
  have catches := dealt (Catch.rewrite f) Catch.withBody fun c b => by
    simp [Catch.rewrite_eq, Catch.withBody]
  cases s <;> cases new <;>
    simp [inner, rebuild, NamespaceDecl.rewrite_eq, elseIfs, cases, catches]

theorem caughtTypes_inner (s : Stmt) : (s.inner f).caughtTypes = s.caughtTypes := by
  cases s with
  | tryCatch body catches cleanup =>
    simp [inner, caughtTypes, List.flatMap_map, Catch.rewrite_eq]
  | _ => rfl

end Stmt

-- Texts

theorem Expr.calleeText_rewrite (e : Expr) (text : String)
    : (e.rewrite f).calleeText text = e.calleeText text := by
  cases e <;> rfl

mutual

/-- An expression is rendered without the statements in it. -/
theorem Expr.render_rewrite (e : Expr) : (e.rewrite f).render = e.render := by
  cases e <;> simp only [Expr.rewrite, Expr.render, Expr.calleeText_rewrite, Expr.render_rewrite,
      Expr.renderAll_rewrite, Expr.renderOption_rewrite, ClassRef.render_rewrite,
      MemberName.render_rewrite, Param.renderAll_rewrite]

theorem Expr.renderAll_rewrite (items : List Expr)
    : Expr.renderAll (Expr.rewriteAll f items) = Expr.renderAll items := by
  cases items <;>
    simp only [Expr.rewriteAll, Expr.renderAll, Expr.render_rewrite, Expr.renderAll_rewrite]

theorem Expr.renderOption_rewrite (value : Option Expr)
    : Expr.renderOption (Expr.rewriteOption f value) = Expr.renderOption value := by
  cases value <;> simp only [Expr.rewriteOption, Expr.renderOption, Expr.render_rewrite]

theorem ClassRef.render_rewrite (c : ClassRef) : (c.rewrite f).render = c.render := by
  cases c <;> simp only [ClassRef.rewrite, ClassRef.render, Expr.render_rewrite]

theorem MemberName.render_rewrite (m : MemberName) : (m.rewrite f).render = m.render := by
  cases m <;> simp only [MemberName.rewrite, MemberName.render, Expr.render_rewrite]

theorem Param.renderAll_rewrite (items : List Param)
    : Param.renderAll (Param.rewriteAll f items) = Param.renderAll items := by
  rcases items with _ | ⟨⟨_, _, default, _, _⟩, rest⟩
  · rfl
  · simp only [Param.rewriteAll, Param.rewrite, Param.renderAll, Param.render,
      Expr.renderOption_rewrite, Param.renderAll_rewrite]

end

theorem Expr.signature?_rewrite (e : Expr) : (e.rewrite f).signature? = e.signature? := by
  cases e <;>
    simp only [Expr.rewrite, Expr.signature?, Expr.calleeText_rewrite, Expr.render_rewrite,
      MemberName.render_rewrite, ClassRef.render_rewrite]

theorem Expr.classOperand?_rewrite (e : Expr)
    : (e.rewrite f).classOperand? = e.classOperand?.map (ClassRef.rewrite f) := by
  cases e <;> rfl

-- One rewriting after another

namespace Part

variable {f g h : Stmt → Stmt}

def Merges (f g h : Stmt → Stmt) (p : Part) : Prop := (p.rewrite f).rewrite g = p.rewrite h

@[simp] theorem merges_expr {e : Expr}
    : (expr e).Merges f g h ↔ (e.rewrite f).rewrite g = e.rewrite h := by
  simp [Merges, rewrite]

@[simp] theorem merges_stmt {s : Stmt}
    : (stmt s).Merges f g h ↔ (s.rewrite f).rewrite g = s.rewrite h := by
  simp [Merges, rewrite]

variable (f g h) in
theorem merges_option (value : Option Expr) (all : All (Merges f g h) (exprs value.toList))
    : (value.map (Expr.rewrite f)).map (Expr.rewrite g) = value.map (Expr.rewrite h) := by
  cases value <;> simp_all

variable (f g h) in
theorem merges_body (body : Option (List Stmt)) (all : All (Merges f g h) (stmts (body.getD [])))
    : (body.map (List.map (Stmt.rewrite f))).map (List.map (Stmt.rewrite g))
      = body.map (List.map (Stmt.rewrite h)) := by
  cases body <;> simp_all

variable (f g h) in
theorem merges_param (p : Param) (all : All (Merges f g h) p.parts)
    : (p.rewrite f).rewrite g = p.rewrite h := by
  simp [Param.rewrite_eq, ← merges_option f g h _ all]

theorem merges_member {m : Member} (held : ∀ s ∈ m.statements, (s.rewrite f).rewrite g = s.rewrite h)
    (values : All (Merges f g h) m.values) : (m.rewrite f).rewrite g = m.rewrite h := by
  cases m with
  | method d =>
    have params := fun p inside => merges_param f g h p (all_flatMap.mp values p inside)
    have body := merges_body f g h d.body (by simpa [Member.statements] using held)
    simpa [Member.rewrite, MethodDecl.rewrite_eq, ← body] using params
  | property d => simp [Member.rewrite, PropertyDecl.rewrite_eq, ← merges_option f g h _ values]
  | constant d =>
    cases d
    simpa [Member.rewrite, ConstDecl.rewrite, Member.values] using values

/-- Rewritings are merged at a part if they are merged below it. -/
theorem inner_inner {p : Part} (below : All (Merges f g h) p.below)
    : (p.inner f).inner g = p.inner h := by
  have option := merges_option f g h
  have param := merges_param f g h
  cases p with
  | expr e =>
    have owner (c : ClassRef) (all : All (Merges f g h) c.parts)
        : (c.rewrite f).rewrite g = c.rewrite h := by
      cases c <;> simp_all [ClassRef.rewrite, ClassRef.parts]
    have name (m : MemberName) (all : All (Merges f g h) m.parts)
        : (m.rewrite f).rewrite g = m.rewrite h := by
      cases m <;> simp_all [MemberName.rewrite, MemberName.parts]
    simp only [Part.below, children, held, values, List.append_nil] at below
    cases e <;> simp_all [inner, Expr.rewrite, Expr.parts]
  | stmt s =>
    have body := merges_body f g h
    have elseIf (e : ElseIf) (all : All (Merges f g h) e.parts)
        : (e.rewrite f).rewrite g = e.rewrite h := by
      simp_all [ElseIf.rewrite_eq, ElseIf.parts]
    have case (c : Case) (all : All (Merges f g h) c.parts)
        : (c.rewrite f).rewrite g = c.rewrite h := by
      simp_all [Case.rewrite_eq, Case.parts]
    have handler (c : Catch) (all : All (Merges f g h) c.parts)
        : (c.rewrite f).rewrite g = c.rewrite h := by
      simp_all [Catch.rewrite_eq, Catch.parts]
    simp only [Part.below, children, held, values] at below
    cases s <;> simp_all [inner, Stmt.inner, Stmt.parts, Stmt.held, Stmt.values, NamespaceDecl.rewrite_eq,
      ClassDecl.rewrite_eq, InterfaceDecl.rewrite_eq, FunctionDecl.rewrite_eq]
    -- The members of a class or an interface are left.
    all_goals exact fun m inside => merges_member (fun s held => below.1 s m inside held) (below.2 m inside)

/-- Two rewritings are merged by one that does the same to each statement. -/
theorem rewrite_rewrite (merges : ∀ s, (f s).rewrite g = h (s.inner g)) (p : Part) : p.Merges f g h := by
  induction p using belowInduction with
  | step p below =>
    have inside := inner_inner below
    cases p with
    | expr e => exact inside
    | stmt s =>
      have same : (s.inner f).inner g = s.inner h := by simpa [inner] using inside
      rw [merges_stmt]
      calc (s.rewrite f).rewrite g = h ((s.inner f).inner g) := merges _
        _ = s.rewrite h := by rw [same, Stmt.rewrite]

end Part

-- Contexts

def Stmt.put (hole : NodeId) (s t : Stmt) : Stmt :=
  if (Part.stmt t).marker? = some hole then s else t

def SourceFile.plug (hole : NodeId) (s : Stmt) (file : SourceFile) : SourceFile :=
  file.rewrite (.put hole s)

/-- Statements that a rewriting makes equal are made equal by it in every place. -/
theorem SourceFile.rewrite_plug_congr {g : Stmt → Stmt} {s t : Stmt} (same : s.rewrite g = t.rewrite g)
    (hole : NodeId) (file : SourceFile)
    : (file.plug hole s).rewrite g = (file.plug hole t).rewrite g := by
  -- Both are rewritten in one step, which knows of the statement only what becomes of it.
  have merged (s : Stmt) : (file.plug hole s).rewrite g
      = file.rewrite fun t => if (Part.stmt t).marker? = some hole then s.rewrite g else g t := by
    simp only [plug, SourceFile.rewrite, Stmt.rewriteAll_eq, List.map_map]
    congr 1
    refine List.map_congr_left fun t _ => Part.merges_stmt.mp (Part.rewrite_rewrite (fun u => ?_) _)
    have marker := Part.marker?_inner (f := g) (.stmt u)
    rw [Part.inner] at marker
    simp only [Stmt.put, marker]
    split <;> rfl
  rw [merged, merged, same]

end DesignMetrics
