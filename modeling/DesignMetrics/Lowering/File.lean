import DesignMetrics.Lowering.Statement

/-!
Files. The view of a tree is built from its leaves up.
-/

namespace DesignMetrics.Lowering

def docBefore (source : Source) (previous : Option CstHead) : DocTags :=
  match previous with
  | none => {}
  | some head =>
    let text := source.text head.start head.stop
    if head.kind = "comment" ∧ "/**".toList.isPrefixOf text.toList then DocTags.parse text else {}

def labelOf (source : Source) (head : CstHead) : Label :=
  ⟨head, source.text head.start head.stop, source.span head.start head.stop⟩

def assemble (label : Label) (doc : DocTags) (children : List View) : View :=
  let self := expression label children
  .mk label doc self (expressions label children self) (statements label doc children) children

mutual

def view (source : Source) (previous : Option CstHead) : Cst → View
  | .node head children =>
    assemble (labelOf source head) (docBefore source previous) (views source none children)

def views (source : Source) (previous : Option CstHead) : List Cst → List View
  | [] => []
  | c :: rest => view source previous c :: views source (some c.head) rest

end

theorem label_view (source : Source) (previous : Option CstHead) (tree : Cst)
    : (view source previous tree).label = labelOf source tree.head := by
  cases tree
  rfl

def isOpenNamespace (v : View) : Bool :=
  v.kind == "namespace_definition" && (inField? v.children "body").isNone

/-- The statements of a file are those of the root's children, grouped under the namespaces that are
declared without braces. -/
def program (current : Option NamespaceDecl) : List View → Lower (List Stmt)
  | [] => return (current.map Stmt.inNamespace).toList
  | v :: rest => do
    if isOpenNamespace v then
      modify fun scope => scope.enter (fieldText v.children "name")
      let decl := { name := some (← get).space, body := [], span := v.span }
      return (current.map Stmt.inNamespace).toList ++ (← program (some decl) rest)
    else
      let lowered ← v.stmts
      match current with
      | some decl =>
        let span := { decl.span with endLine := v.span.endLine }
        program (some { decl with body := decl.body ++ lowered, span }) rest
      | none => return lowered ++ (← program none rest)

def statementsOf (bytes : ByteArray) (tree : Cst) : List Stmt :=
  let children := (view (.ofBytes bytes) none tree).children
  ((program none (phrases children)).run {}).1

end DesignMetrics.Lowering

namespace DesignMetrics

def SourceFile.ofCst (path : String) (bytes : ByteArray) (tree : Cst) : SourceFile :=
  ⟨path, Lowering.statementsOf bytes tree⟩

end DesignMetrics
