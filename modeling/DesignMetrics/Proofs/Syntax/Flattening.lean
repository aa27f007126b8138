import DesignMetrics.Proofs.Syntax.Rewriting

/-! Chains of conditions without nesting.
An `if` whose else branch is another `if` and nothing else can be written as one chain. Flattening does
this everywhere. Two pieces of code with the same flattening differ in how such chains are nested at
most.
-/

namespace DesignMetrics

namespace Stmt

def chained : Option (List Stmt) → List ElseIf × Option (List Stmt)
  | some [.ifElse cond body elseIfs otherwise] => (⟨cond, body⟩ :: elseIfs, otherwise)
  | otherwise => ([], otherwise)

def flattenIf : Stmt → Stmt
  | .ifElse cond body elseIfs otherwise =>
    .ifElse cond body (elseIfs ++ (chained otherwise).1) (chained otherwise).2
  | s => s

def flattened (s : Stmt) : Stmt := s.rewrite flattenIf

/-- An else branch is a chain that goes on, or the end of one. -/
theorem chained_cases (otherwise : Option (List Stmt))
    : chained otherwise = ([], otherwise)
      ∨ ∃ cond body elseIfs last, otherwise = some [.ifElse cond body elseIfs last]
          ∧ chained otherwise = (⟨cond, body⟩ :: elseIfs, last) := by
  unfold chained
  split
  · exact .inr ⟨_, _, _, _, rfl, rfl⟩
  · exact .inl rfl

/-- A statement that is changed by joining is a chain that another one stands in alone. -/
theorem flattenIf_cases (s : Stmt)
    : s.flattenIf = s
      ∨ ∃ cond body elseIfs cond' body' elseIfs' last,
          s = .ifElse cond body elseIfs (some [.ifElse cond' body' elseIfs' last])
          ∧ s.flattenIf = .ifElse cond body (elseIfs ++ ⟨cond', body'⟩ :: elseIfs') last := by
  cases s with
  | ifElse cond body elseIfs otherwise =>
    rcases chained_cases otherwise with ends | ⟨cond', body', elseIfs', last, rfl, _⟩
    · exact .inl (by rw [flattenIf, ends, List.append_nil])
    · exact .inr ⟨cond, body, elseIfs, cond', body', elseIfs', last, rfl, rfl⟩
  | _ => exact .inl rfl

/-- The parts of the second chain come in its place when two chains are joined. -/
theorem parts_joined (cond : Expr) (body : List Stmt) (elseIfs : List ElseIf) (cond' : Expr)
    (body' : List Stmt) (elseIfs' : List ElseIf) (last : Option (List Stmt))
    : ∃ before,
        (ifElse cond body elseIfs (some [ifElse cond' body' elseIfs' last])).parts
          = before ++ [.stmt (ifElse cond' body' elseIfs' last)]
        ∧ (ifElse cond body (elseIfs ++ ⟨cond', body'⟩ :: elseIfs') last).parts
          = before ++ (ifElse cond' body' elseIfs' last).parts := by
  refine ⟨.expr cond :: (Part.stmts body ++ elseIfs.flatMap ElseIf.parts), ?_, ?_⟩
  · simp [parts, Part.stmts]
  · simp [parts, ElseIf.parts, Part.stmts]

/-- It does not matter whether a chain is joined before or after those inside it. -/
theorem flattened_ifElse (cond : Expr) (body : List Stmt) (elseIfs : List ElseIf)
    (otherwise : Option (List Stmt))
    : (ifElse cond body elseIfs otherwise).flattened
      = (ifElse cond body (elseIfs ++ (chained otherwise).1) (chained otherwise).2).flattened := by
  rcases chained_cases otherwise with same | ⟨cond', body', elseIfs', last, rfl, joined⟩
  · rw [same, List.append_nil]
  · simp [chained, flattened, rewrite, inner, flattenIf, ElseIf.rewrite_eq]

end Stmt

def Expr.flattened (e : Expr) : Expr := e.rewrite Stmt.flattenIf

def SourceFile.flattened (file : SourceFile) : SourceFile := file.rewrite Stmt.flattenIf

end DesignMetrics
