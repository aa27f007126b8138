import DesignMetrics.Proofs.Json.Recovery
import DesignMetrics.Proofs.Syntax.Discrete
import DesignMetrics.Syntax.Decoding

/-! Syntax that is read back is the syntax that was written.
Expressions and statements are read level by level, so what holds of the parts of one level holds of
everything above it, by induction on the number of levels that are read.
-/

namespace DesignMetrics

open Json

variable {levels : Nat}

/-- Lists that are written item by item are read item by item. -/
theorem Json.Recovers.items {α : Type} {write : α → Json} {read : Reads α}
    {writeAll : List α → List Json} (h : Recovers write read levels)
    (same : ∀ items, writeAll items = items.map write)
    : Recovers (fun items => .array (writeAll items)) (list? read) levels where
  reading {items j} dimmed := by
    simp only [same] at dimmed ⊢
    exact h.list.reading dimmed
  broken := rfl

theorem Span.recovers : Recovers Span.toJson Span.ofJson? levels where
  reading dimmed := dimmed.record rfl (by decide) fun
    | .cons first (.cons last .nil) =>
      .bind (recovers_word.reading first) (.bind (recovers_word.reading last) (.same _))
  broken := rfl

theorem Modifiers.recovers : Recovers Modifiers.toJson Modifiers.ofJson? levels where
  reading {m j} dimmed := by
    have number : ReadsBack m.bits.toNat (j = m.toJson) (m.bits.toNat < 256) (natBelow? 256 j) :=
      reading_natBelow dimmed
    have read := number.map fun n => Modifiers.mk n.toUInt8
    have same : m.bits.toNat.toUInt8 = m.bits := by simp
    rw [same] at read
    exact read.imp id id fun _ _ => m.bits.toNat_lt
  broken := rfl

theorem NodeId.recovers : Recovers (fun id : NodeId => .string id.text) NodeId.ofJson? levels where
  reading dimmed := (recovers_string.reading dimmed).map NodeId.mk
  broken := rfl

theorem TypeRef.recovers (w : Leeway) : Recovers TypeRef.toJson (TypeRef.ofJson? w) levels where
  reading {t j} dimmed := by
    cases t with
    | named | scalar =>
      exact dimmed.choice fun text => .wrap (recovers_string.reading text) _
    | selfType | parentType | staticType => exact dimmed.name (.same _)
  broken := rfl

theorem TypeRef.toJson_ne_null (t : TypeRef) : t.toJson ≠ .null := by
  cases t <;> simp [toJson, tagged]

theorem BinaryOp.recovers (w : Leeway) : Recovers BinaryOp.toJson (BinaryOp.ofJson? w) levels where
  reading {op j} dimmed := by
    cases op <;> exact dimmed.name (.same _)
  broken := rfl

theorem recovers_typeHint (w : Leeway)
    : Recovers (ofOption TypeRef.toJson) (optional? (TypeRef.ofJson? w)) levels :=
  (TypeRef.recovers w).option TypeRef.toJson_ne_null

theorem Expr.toJson_ne_null (e : Expr) : e.toJson ≠ .null := by
  cases e <;> simp [toJson, tagged, variant]

theorem recovers_name : Recovers (ofOption .string) (optional? string?) levels :=
  recovers_string.option (by simp)

section

variable (w : Leeway) {expr : Reads Expr} {stmt : Reads Stmt}
variable (exprs : Recovers Expr.toJson expr levels) (stmts : Recovers Stmt.toJson stmt levels)

include exprs

theorem Expr.recovers_option : Recovers Expr.optionToJson (optional? expr) levels := by
  have same : Expr.optionToJson = ofOption Expr.toJson := by
    funext e
    cases e <;> rfl
  rw [same]
  exact exprs.option Expr.toJson_ne_null

theorem Expr.recovers_list
    : Recovers (fun items => .array (Expr.listToJson items)) (list? expr) levels :=
  exprs.items Expr.listToJson_eq

theorem ClassRef.recovers : Recovers ClassRef.toJson (ClassRef.read? w expr) levels where
  reading {c j} dimmed := by
    cases c with
    | type => exact dimmed.choice fun inner => .wrap ((TypeRef.recovers w).reading inner) _
    | dynamic => exact dimmed.choice fun inner => .wrap (exprs.reading inner) _
  broken := rfl

theorem MemberName.recovers : Recovers MemberName.toJson (MemberName.read? expr) levels where
  reading {m j} dimmed := by
    cases m with
    | ident => exact dimmed.choice fun inner => .wrap (recovers_string.reading inner) _
    | dynamic => exact dimmed.choice fun inner => .wrap (exprs.reading inner) _
  broken := rfl

theorem Param.recovers : Recovers Param.toJson (Param.read? w expr) levels where
  reading {p j} dimmed := by
    cases p
    exact dimmed.record rfl (by decide) fun
      | .cons name (.cons hint (.cons value (.cons byRef (.cons variadic .nil)))) =>
        .bind (recovers_string.reading name) (.bind ((recovers_typeHint w).reading hint)
          (.bind ((Expr.recovers_option exprs).reading value) (.bind (recovers_bool.reading byRef)
            (.bind (recovers_bool.reading variadic) (.same _)))))
  broken := rfl

theorem PropertyDecl.recovers : Recovers PropertyDecl.toJson (PropertyDecl.read? w expr) levels where
  reading {d j} dimmed := by
    cases d
    exact dimmed.record rfl (by decide) fun
      | .cons name (.cons modifiers (.cons hint (.cons value (.cons span .nil)))) =>
        .bind (recovers_string.reading name) (.bind (Modifiers.recovers.reading modifiers)
          (.bind ((recovers_typeHint w).reading hint) (.bind ((Expr.recovers_option exprs).reading value)
            (.bind (Span.recovers.reading span) (.same _)))))
  broken := rfl

theorem ConstDecl.recovers : Recovers ConstDecl.toJson (ConstDecl.read? expr) levels where
  reading {d j} dimmed := by
    cases d
    exact dimmed.record rfl (by decide) fun
      | .cons name (.cons value (.cons span .nil)) =>
        .bind (recovers_string.reading name) (.bind (exprs.reading value)
          (.bind (Span.recovers.reading span) (.same _)))
  broken := rfl

include stmts

omit exprs in
theorem Stmt.recovers_list
    : Recovers (fun items => .array (Stmt.listToJson items)) (list? stmt) levels :=
  stmts.items Stmt.listToJson_eq

omit exprs in
theorem Stmt.recovers_body : Recovers Stmt.bodyToJson (optional? (list? stmt)) levels := by
  have same : Stmt.bodyToJson = ofOption (ofList Stmt.toJson) := by
    funext body
    cases body with
    | none => rfl
    | some body => rw [bodyToJson, listToJson_eq, ofOption, ofList]
  rw [same]
  exact stmts.list.option (by simp [ofList])

theorem ElseIf.recovers : Recovers ElseIf.toJson (ElseIf.read? expr stmt) levels where
  reading {e j} dimmed := by
    cases e
    exact dimmed.record rfl (by decide) fun
      | .cons cond (.cons body .nil) =>
        .bind (exprs.reading cond) (.bind ((Stmt.recovers_list stmts).reading body) (.same _))
  broken := rfl

theorem Case.recovers : Recovers Case.toJson (Case.read? expr stmt) levels where
  reading {c j} dimmed := by
    cases c
    exact dimmed.record rfl (by decide) fun
      | .cons test (.cons body .nil) =>
        .bind ((Expr.recovers_option exprs).reading test)
          (.bind ((Stmt.recovers_list stmts).reading body) (.same _))
  broken := rfl

omit exprs in
theorem Catch.recovers : Recovers Catch.toJson (Catch.read? w stmt) levels where
  reading {c j} dimmed := by
    cases c
    exact dimmed.record rfl (by decide) fun
      | .cons types (.cons binder (.cons body .nil)) =>
        .bind ((TypeRef.recovers w).list.reading types) (.bind (recovers_name.reading binder)
          (.bind ((Stmt.recovers_list stmts).reading body) (.same _)))
  broken := rfl

omit exprs in
theorem NamespaceDecl.recovers : Recovers NamespaceDecl.toJson (NamespaceDecl.read? stmt) levels where
  reading {d j} dimmed := by
    cases d
    exact dimmed.record rfl (by decide) fun
      | .cons name (.cons body (.cons span .nil)) =>
        .bind (recovers_name.reading name) (.bind ((Stmt.recovers_list stmts).reading body)
          (.bind (Span.recovers.reading span) (.same _)))
  broken := rfl

theorem FunctionDecl.recovers : Recovers FunctionDecl.toJson (FunctionDecl.read? w expr stmt) levels where
  reading {d j} dimmed := by
    cases d
    exact dimmed.record rfl (by decide) fun
      | .cons name (.cons params (.cons returnType (.cons throws (.cons body (.cons span .nil))))) =>
        .bind (recovers_string.reading name)
          (.bind (((Param.recovers w exprs).items Param.listToJson_eq).reading params)
            (.bind ((recovers_typeHint w).reading returnType)
              (.bind ((TypeRef.recovers w).list.reading throws)
                (.bind ((Stmt.recovers_list stmts).reading body)
                  (.bind (Span.recovers.reading span) (.same _))))))
  broken := rfl

theorem MethodDecl.recovers : Recovers MethodDecl.toJson (MethodDecl.read? w expr stmt) levels where
  reading {d j} dimmed := by
    cases d
    exact dimmed.record rfl (by decide) fun
      | .cons name (.cons modifiers (.cons params (.cons returnType (.cons throws
          (.cons body (.cons span .nil)))))) =>
        .bind (recovers_string.reading name) (.bind (Modifiers.recovers.reading modifiers)
          (.bind (((Param.recovers w exprs).items Param.listToJson_eq).reading params)
            (.bind ((recovers_typeHint w).reading returnType)
              (.bind ((TypeRef.recovers w).list.reading throws)
                (.bind ((Stmt.recovers_body stmts).reading body)
                  (.bind (Span.recovers.reading span) (.same _)))))))
  broken := rfl

theorem Member.recovers : Recovers Member.toJson (Member.read? w expr stmt) levels where
  reading {m j} dimmed := by
    cases m with
    | method =>
      exact dimmed.choice fun d => .wrap ((MethodDecl.recovers w exprs stmts).reading d) _
    | property =>
      exact dimmed.choice fun d => .wrap ((PropertyDecl.recovers w exprs).reading d) _
    | constant =>
      exact dimmed.choice fun d => .wrap ((ConstDecl.recovers exprs).reading d) _
  broken := rfl

theorem ClassDecl.recovers : Recovers ClassDecl.toJson (ClassDecl.read? w expr stmt) levels where
  reading {d j} dimmed := by
    cases d
    exact dimmed.record rfl (by decide) fun
      | .cons name (.cons modifiers (.cons parent (.cons interfaces (.cons members
          (.cons span .nil))))) =>
        .bind (recovers_string.reading name) (.bind (Modifiers.recovers.reading modifiers)
          (.bind (recovers_name.reading parent) (.bind (recovers_string.list.reading interfaces)
            (.bind (((Member.recovers w exprs stmts).items Member.listToJson_eq).reading members)
              (.bind (Span.recovers.reading span) (.same _))))))
  broken := rfl

theorem InterfaceDecl.recovers
    : Recovers InterfaceDecl.toJson (InterfaceDecl.read? w expr stmt) levels where
  reading {d j} dimmed := by
    cases d
    exact dimmed.record rfl (by decide) fun
      | .cons name (.cons parents (.cons members (.cons span .nil))) =>
        .bind (recovers_string.reading name) (.bind (recovers_string.list.reading parents)
          (.bind (((Member.recovers w exprs stmts).items Member.listToJson_eq).reading members)
            (.bind (Span.recovers.reading span) (.same _))))
  broken := rfl

/-- An expression is recovered if its parts are. -/
theorem Expr.recovers_with : Recovers Expr.toJson (Expr.readWith? w expr stmt) (levels + 1) where
  reading {e j} dimmed := by
    have owners := ClassRef.recovers w exprs
    have names := MemberName.recovers exprs
    have lists := Expr.recovers_list exprs
    have options := Expr.recovers_option exprs
    cases e with
    | literal | var | name =>
      exact dimmed.choiceBelow fun text => .wrap (recovers_string.reading text) _
    | array | other => exact dimmed.choiceBelow fun items => .wrap (lists.reading items) _
    | propertyFetch =>
      exact dimmed.choiceBelow fun inner => inner.held rfl (by decide) fun
        | .cons subject (.cons property .nil) =>
          .bind (exprs.reading subject) (.bind (names.reading property) (.same _))
    | staticPropertyFetch | classConstFetch =>
      exact dimmed.choiceBelow fun inner => inner.held rfl (by decide) fun
        | .cons owner (.cons member .nil) =>
          .bind (owners.reading owner) (.bind (recovers_string.reading member) (.same _))
    | funcCall =>
      exact dimmed.choiceBelow fun inner => inner.held rfl (by decide) fun
        | .cons callee (.cons args .nil) =>
          .bind (exprs.reading callee) (.bind (lists.reading args) (.same _))
    | methodCall =>
      exact dimmed.choiceBelow fun inner => inner.held rfl (by decide) fun
        | .cons subject (.cons method (.cons args .nil)) =>
          .bind (exprs.reading subject) (.bind (names.reading method) (.bind (lists.reading args) (.same _)))
    | staticCall =>
      exact dimmed.choiceBelow fun inner => inner.held rfl (by decide) fun
        | .cons owner (.cons method (.cons args .nil)) =>
          .bind (owners.reading owner) (.bind (names.reading method) (.bind (lists.reading args) (.same _)))
    | newObject =>
      exact dimmed.choiceBelow fun inner => inner.held rfl (by decide) fun
        | .cons owner (.cons args .nil) =>
          .bind (owners.reading owner) (.bind (lists.reading args) (.same _))
    | instanceOf =>
      exact dimmed.choiceBelow fun inner => inner.held rfl (by decide) fun
        | .cons value (.cons owner .nil) =>
          .bind (exprs.reading value) (.bind (owners.reading owner) (.same _))
    | closure =>
      exact dimmed.choiceBelow fun inner => inner.held rfl (by decide) fun
        | .cons params (.cons uses (.cons returnType (.cons body .nil))) =>
          .bind (((Param.recovers w exprs).items Param.listToJson_eq).reading params)
            (.bind (recovers_string.list.reading uses) (.bind ((recovers_typeHint w).reading returnType)
              (.bind ((Stmt.recovers_list stmts).reading body) (.same _))))
    | ternary =>
      exact dimmed.choiceBelow fun inner => inner.held rfl (by decide) fun
        | .cons cond (.cons chosen (.cons otherwise .nil)) =>
          .bind (exprs.reading cond) (.bind (options.reading chosen)
            (.bind (exprs.reading otherwise) (.same _)))
    | binary =>
      exact dimmed.choiceBelow fun inner => inner.held rfl (by decide) fun
        | .cons op (.cons operator (.cons left (.cons right .nil))) =>
          .bind ((BinaryOp.recovers w).reading op) (.bind (recovers_string.reading operator)
            (.bind (exprs.reading left) (.bind (exprs.reading right) (.same _))))
    | unary =>
      exact dimmed.choiceBelow fun inner => inner.held rfl (by decide) fun
        | .cons operator (.cons operand .nil) =>
          .bind (recovers_string.reading operator) (.bind (exprs.reading operand) (.same _))
    | assign =>
      exact dimmed.choiceBelow fun inner => inner.held rfl (by decide) fun
        | .cons target (.cons operator (.cons value .nil)) =>
          .bind (exprs.reading target) (.bind (recovers_string.reading operator)
            (.bind (exprs.reading value) (.same _)))
  broken := rfl

/-- A statement is recovered if its parts are. -/
theorem Stmt.recovers_with : Recovers Stmt.toJson (Stmt.readWith? w expr stmt) (levels + 1) where
  reading {s j} dimmed := by
    have bodies := Stmt.recovers_list stmts
    have lists := Expr.recovers_list exprs
    have options := Expr.recovers_option exprs
    cases s with
    | inNamespace =>
      exact dimmed.choiceBelow fun d => .wrap ((NamespaceDecl.recovers stmts).reading d) _
    | classDecl =>
      exact dimmed.choiceBelow fun d => .wrap ((ClassDecl.recovers w exprs stmts).reading d) _
    | interfaceDecl =>
      exact dimmed.choiceBelow fun d => .wrap ((InterfaceDecl.recovers w exprs stmts).reading d) _
    | functionDecl =>
      exact dimmed.choiceBelow fun d => .wrap ((FunctionDecl.recovers w exprs stmts).reading d) _
    | declared => exact dimmed.choiceBelow fun id => .wrap (NodeId.recovers.reading id) _
    | expr | throw => exact dimmed.choiceBelow fun value => .wrap (exprs.reading value) _
    | echo | other => exact dimmed.choiceBelow fun values => .wrap (lists.reading values) _
    | ret => exact dimmed.choiceBelow fun value => .wrap (options.reading value) _
    | block => exact dimmed.choiceBelow fun body => .wrap (bodies.reading body) _
    | ifElse =>
      exact dimmed.choiceBelow fun inner => inner.held rfl (by decide) fun
        | .cons cond (.cons body (.cons elseIfs (.cons otherwise .nil))) =>
          .bind (exprs.reading cond) (.bind (bodies.reading body)
            (.bind (((ElseIf.recovers exprs stmts).items ElseIf.listToJson_eq).reading elseIfs)
              (.bind ((Stmt.recovers_body stmts).reading otherwise) (.same _))))
    | whileLoop =>
      exact dimmed.choiceBelow fun inner => inner.held rfl (by decide) fun
        | .cons cond (.cons body .nil) =>
          .bind (exprs.reading cond) (.bind (bodies.reading body) (.same _))
    | doWhile =>
      exact dimmed.choiceBelow fun inner => inner.held rfl (by decide) fun
        | .cons body (.cons cond .nil) =>
          .bind (bodies.reading body) (.bind (exprs.reading cond) (.same _))
    | forLoop =>
      exact dimmed.choiceBelow fun inner => inner.held rfl (by decide) fun
        | .cons init (.cons cond (.cons step (.cons body .nil))) =>
          .bind (lists.reading init) (.bind (lists.reading cond) (.bind (lists.reading step)
            (.bind (bodies.reading body) (.same _))))
    | forEach =>
      exact dimmed.choiceBelow fun inner => inner.held rfl (by decide) fun
        | .cons subject (.cons key (.cons value (.cons body .nil))) =>
          .bind (exprs.reading subject) (.bind (options.reading key) (.bind (options.reading value)
            (.bind (bodies.reading body) (.same _))))
    | switch =>
      exact dimmed.choiceBelow fun inner => inner.held rfl (by decide) fun
        | .cons subject (.cons cases .nil) =>
          .bind (exprs.reading subject)
            (.bind (((Case.recovers exprs stmts).items Case.listToJson_eq).reading cases) (.same _))
    | tryCatch =>
      exact dimmed.choiceBelow fun inner => inner.held rfl (by decide) fun
        | .cons body (.cons catches (.cons cleanup .nil)) =>
          .bind (bodies.reading body)
            (.bind (((Catch.recovers w stmts).items Catch.listToJson_eq).reading catches)
              (.bind ((Stmt.recovers_body stmts).reading cleanup) (.same _)))
  broken := rfl

end

theorem Expr.depth_pos (e : Expr) : 0 < e.toJson.depth := by
  cases e <;> simp [toJson, variant]

theorem Stmt.depth_pos (s : Stmt) : 0 < s.toJson.depth := by
  cases s <;> simp [toJson, variant]

/-- What is read to a number of levels is found if it is nested no deeper than that. -/
theorem recovers_readTo (w : Leeway) (n : Nat)
    : Recovers Expr.toJson (Expr.readTo? w n) n ∧ Recovers Stmt.toJson (Stmt.readTo? w n) n := by
  induction n with
  | zero =>
    rw [Expr.readTo?, Stmt.readTo?]
    refine ⟨⟨fun {e _} _ => .nothing _ fun _ flat => ?_, rfl⟩,
      ⟨fun {s _} _ => .nothing _ fun _ flat => ?_, rfl⟩⟩
    · exact absurd e.depth_pos (by omega)
    · exact absurd s.depth_pos (by omega)
  | succ n ih =>
    rw [Expr.readTo?, Stmt.readTo?]
    exact ⟨Expr.recovers_with w ih.1 ih.2, Stmt.recovers_with w ih.1 ih.2⟩

theorem Expr.recovers (w : Leeway) : Recovers Expr.toJson (Expr.ofJson? w) levels where
  reading {_ j} dimmed :=
    ((recovers_readTo w j.depth).1.reading dimmed).imp id id fun whole _ => whole ▸ Nat.le_refl _
  broken := rfl

theorem Stmt.recovers (w : Leeway) : Recovers Stmt.toJson (Stmt.ofJson? w) levels where
  reading {_ j} dimmed :=
    ((recovers_readTo w j.depth).2.reading dimmed).imp id id fun whole _ => whole ▸ Nat.le_refl _
  broken := rfl

end DesignMetrics
