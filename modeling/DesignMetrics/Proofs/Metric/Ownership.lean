import DesignMetrics.Metric.Coupling
import DesignMetrics.Proofs.Traversal.Members

/-! What code belongs to.
A function owns its signature and its body, a type owns its members with theirs, and what stands outside
of all declarations belongs to the unit. Closures belong to what is around them, and declarations to
themselves.
-/

namespace DesignMetrics

/-- What is entered in statements, without the declarations in them. -/
def visitsIn (r : Registry) (body : List Stmt) : List Visit :=
  (body.flatMap fun s => (Part.stmt s).within).filterMap (Part.visit? r)

/-- What is entered at a node with a body: the node and what stands in its body. -/
def Node.visits (r : Registry) (n : Node) : List Visit := n.visit :: visitsIn r n.statements

def Registry.membersOf (r : Registry) (t : TypeNode) : List Node :=
  r.toList.filter fun n => n.owner? = some t.qualifiedName

/-- What references and calls belong to. -/
inductive Owner where
  | unit (unit : CompilationUnit)
  | function (node : FunctionNode)
  | type (node : TypeNode)

namespace Owner

def ofNode? : Node → Option Owner
  | .function f => some (.function f)
  | .type t => some (.type t)
  | .space _ | .method _ | .property _ => none

def scope : Owner → CouplingScope
  | unit u => .unit u.scopeId
  | function f => .function f.id
  | type t => .type t.id

def type? : Owner → Option TypeNode
  | type t => some t
  | unit _ | function _ => none

def isCounted : Owner → Bool
  | unit _ => false
  | function _ => true
  | type t => !t.isInterface

def code (r : Registry) : Owner → List Visit
  | unit u => .unit u :: visitsIn r u.statements
  | function f => (Node.function f).visits r
  | type t => .type t :: (r.membersOf t).flatMap (Node.visits r)

end Owner

def owners (units : List CompilationUnit) (r : Registry) : List Owner :=
  units.map .unit ++ r.toList.filterMap Owner.ofNode?

def Visit.signatureNames : Visit → List String
  | .method m => m.refs.parameterTypes ++ m.refs.returnType.toList ++ m.refs.thrown
  | .function f => f.refs.parameterTypes ++ f.refs.returnType.toList ++ f.refs.thrown
  | _ => []

/-- Whether something refers to a type by itself, inside the type `current`. -/
inductive RefersTo (r : Registry) (current : Option TypeNode) (t : TypeNode) : Visit → Prop
  | signature {v : Visit} {name : String} (named : name ∈ v.signatureNames)
      (found : r.type? name = some t) : RefersTo r current t v
  | property {p : PropertyNode} {name : String} (named : p.refs.typeName = some name)
      (found : r.type? name = some t) : RefersTo r current t (.property p)
  | caught {body : List Stmt} {catches : List Catch} {cleanup : Option (List Stmt)} {c : Catch}
      {ref : TypeRef} (clause : c ∈ catches) (named : ref ∈ c.types)
      (found : r.resolveType? current ref = some t)
    : RefersTo r current t (.stmt (.tryCatch body catches cleanup))
  | newObject {ref : ClassRef} {args : List Expr} (found : r.resolveClass? current ref = some t)
    : RefersTo r current t (.expr (.newObject ref args))
  | instanceOf {value : Expr} {ref : ClassRef} (found : r.resolveClass? current ref = some t)
    : RefersTo r current t (.expr (.instanceOf value ref))
  | staticCall {ref : ClassRef} {method : MemberName} {args : List Expr}
      (found : r.resolveClass? current ref = some t)
    : RefersTo r current t (.expr (.staticCall ref method args))
  | staticProperty {ref : ClassRef} {property : String}
      (found : r.resolveClass? current ref = some t)
    : RefersTo r current t (.expr (.staticPropertyFetch ref property))
  | classConstant {ref : ClassRef} {constant : String}
      (found : r.resolveClass? current ref = some t)
    : RefersTo r current t (.expr (.classConstFetch ref constant))

/-- The references that are looked up are those that there are. -/
theorem mem_references {r : Registry} {current : Option TypeNode} {t : TypeNode} {v : Visit}
    : t ∈ r.references current v ↔ RefersTo r current t v := by
  have signature {returnType : Option String} {thrown parameterTypes : List String}
      : t ∈ r.signatureTypes returnType thrown parameterTypes
        ↔ ∃ name ∈ parameterTypes ++ returnType.toList ++ thrown, r.type? name = some t := by
    cases returnType <;> simp [Registry.signatureTypes, Registry.typesNamed] <;> grind
  constructor
  · intro member
    cases v with
    | method | function =>
      obtain ⟨name, named, found⟩ := signature.mp member
      exact .signature named found
    | property p =>
      obtain ⟨name, named, found⟩ := Option.bind_eq_some_iff.mp (Option.mem_toList.mp member)
      exact .property named found
    | stmt s =>
      obtain ⟨ref, caught, found⟩ := List.mem_filterMap.mp member
      unfold Stmt.caughtTypes at caught
      split at caught
      · obtain ⟨c, clause, named⟩ := List.mem_flatMap.mp caught
        exact .caught clause named found
      · simp at caught
    | expr e =>
      obtain ⟨ref, operand, found⟩ := Option.bind_eq_some_iff.mp (Option.mem_toList.mp member)
      unfold Expr.classOperand? at operand
      split at operand <;> simp at operand <;> subst operand
      · exact .newObject found
      · exact .instanceOf found
      · exact .staticCall found
      · exact .staticProperty found
      · exact .classConstant found
    | unit | space | type => simp [Registry.references] at member
  · intro refers
    cases refers with
    | signature named found =>
      cases v with
      | method | function => exact signature.mpr ⟨_, named, found⟩
      | _ => simp [Visit.signatureNames] at named
    | property named found => simp [Registry.references, named, found]
    | caught clause named found =>
      exact List.mem_filterMap.mpr ⟨_, List.mem_flatMap.mpr ⟨_, clause, named⟩, found⟩
    | newObject found | instanceOf found | staticCall found | staticProperty found
    | classConstant found => simp [Registry.references, Expr.classOperand?, found]

def Visit.signature? : Visit → Option String
  | .expr e => e.signature?
  | _ => none

namespace Owner

/-- Whether an owner is coupled to a type: its code refers to the type, and it does not inherit from
the type or the other way round. -/
def CoupledTo (r : Registry) (D : Owner) (t : TypeNode) : Prop :=
  (∃ v ∈ D.code r, RefersTo r D.type? t v)
    ∧ ∀ s, D.type? = some s → r.isSubtype s t = false ∧ r.isSubtype t s = false

def signatures (r : Registry) (D : Owner) : List String := (D.code r).filterMap Visit.signature?

end Owner

/-- In plain files a type lists the members that belong to it. -/
theorem Plain.mem_membersOf {files : List SourceFile} {r : Registry} {o : Outline}
    (plain : Plain files) (laid : Laid (Sourced files) r o) (top : ∀ n ∈ o.roots, n.owner? = none)
    {t : TypeNode} (there : .type t ∈ r.toList) {y : Node}
    : y ∈ r.membersOf t ↔ y ∈ t.members.filterMap r.node? := by
  obtain ⟨inside, entry⟩ := Outline.exists_mem_entries (laid.mem_iff.mp ⟨there, rfl⟩).1
  obtain ⟨_, _, shape⟩ := laid.formed.of_mem_entries entry
  rw [plain.members_eq laid top entry, Registry.membersOf, List.mem_filter, List.mem_filterMap]
  constructor
  · rintro ⟨at_y, owned⟩
    have owned : y.owner? = some t.qualifiedName := by simpa using owned
    have other : y.isSpace = false := by cases y <;> simp_all [Node.owner?, Node.isSpace]
    have root := plain.mem_roots laid.formed top entry (laid.mem_iff.mp ⟨at_y, other⟩).1 owned rfl
    exact ⟨y.id, List.mem_map_of_mem (List.mem_filter.mpr ⟨root, by simp [other]⟩),
      laid.node?_eq (mem_declarations.mpr ⟨at_y, other⟩) (.refl _)⟩
  · rintro ⟨id, marker, found⟩
    obtain ⟨z, kept, rfl⟩ := List.mem_map.mp marker
    obtain ⟨root, other⟩ := List.mem_filter.mp kept
    have within : z ∈ o.nodes := (Outline.nodes_sublist_of_mem_entries entry).subset
      (List.mem_cons_of_mem _ (Outline.mem_nodes_of_mem_roots root))
    have at_z := laid.placed.mem_of_mem within (by simpa using other)
    obtain rfl : z = y := Option.some.inj ((laid.node?_eq at_z (.refl _)).symm.trans found)
    exact ⟨(mem_declarations.mp at_z).1, by simpa [Node.scope?] using shape.owned z root⟩

end DesignMetrics
