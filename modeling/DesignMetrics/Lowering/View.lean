import DesignMetrics.Cst.Basic
import DesignMetrics.Names.DocTags
import DesignMetrics.Names.Scope

/-!
A concrete tree prepared for lowering. What a node lowers to depends on its label and on the views
of its children only, so lowering is one fold over the tree.
-/

namespace DesignMetrics

abbrev Lower (α : Type) := StateM NameScope α

/-- A node without its children. -/
structure Label where
  head : CstHead
  text : String
  span : Span

/-- Every node carries its text, its lines, the documentation comment in front of it, and the three
ways in which it can be lowered: as an expression, as a list of expressions and as statements. -/
inductive View where
  | mk (label : Label) (doc : DocTags) (expr : Lower Expr) (exprs : Lower (List Expr))
      (stmts : Lower (List Stmt)) (children : List View)

namespace View

def label : View → Label
  | mk label .. => label

def doc : View → DocTags
  | mk _ doc .. => doc

def expr : View → Lower Expr
  | mk _ _ expr .. => expr

def exprs : View → Lower (List Expr)
  | mk _ _ _ exprs .. => exprs

def stmts : View → Lower (List Stmt)
  | mk _ _ _ _ stmts _ => stmts

def children : View → List View
  | mk _ _ _ _ _ children => children

def kind (v : View) : String := v.label.head.kind

def field (v : View) : String := v.label.head.field

def text (v : View) : String := v.label.text

def span (v : View) : Span := v.label.span

def isPhrase (v : View) : Bool := v.label.head.named && v.kind != "comment"

def isOneOf (v : View) (kinds : List String) : Bool := kinds.contains v.kind

end View

def phrases (children : List View) : List View := children.filter View.isPhrase

def inField? (children : List View) (field : String) : Option View :=
  children.find? fun c => c.field == field

def withoutField (children : List View) (field : String) : List View :=
  children.eraseP fun c => c.field == field

def fieldText? (children : List View) (field : String) : Option String :=
  (inField? children field).map View.text

def fieldText (children : List View) (field : String) : String :=
  (fieldText? children field).getD ""

def withoutDollar (name : String) : String := Text.trimStart (· == '$') name

def Expr.unknown : Expr := .other []

def exprOf (v : Option View) : Lower Expr :=
  match v with
  | some v => v.expr
  | none => return .unknown

def exprsOf : List View → Lower (List Expr)
  | [] => return []
  | v :: rest => do
    let e ← v.expr
    return e :: (← exprsOf rest)

def flatExprsOf : List View → Lower (List Expr)
  | [] => return []
  | v :: rest => do
    let es ← v.exprs
    return es ++ (← flatExprsOf rest)

def stmtsOf : List View → Lower (List Stmt)
  | [] => return []
  | v :: rest => do
    let s ← v.stmts
    return s ++ (← stmtsOf rest)

def blockOf (v : View) : Lower (List Stmt) :=
  if v.isOneOf ["compound_statement", "colon_block"] then stmtsOf (phrases v.children) else v.stmts

def bodyOf (children : List View) (field : String) : Lower (List Stmt) :=
  match inField? children field with
  | some v => blockOf v
  | none => return []

end DesignMetrics
