import Mathlib.Data.List.Chain
import Mathlib.Data.List.Lex
import Mathlib.Data.Set.Card
import DesignMetrics.Proofs.Metric.NamespaceLog

/-! Cycles of namespaces.
From every identifier that a cycle can be reached from there is a path through distinct identifiers that
comes back to one of them. A search in the order of identifiers finds the first such path, and nothing
is lost if it passes over what it has left without a cycle.
-/

namespace DesignMetrics

open List

variable {path : List NodeId}

namespace Cycle

-- Paths into cycles

variable {edge : NodeId → NodeId → Prop}

/-- Whether a cycle can be reached from an identifier. -/
def Reachable (edge : NodeId → NodeId → Prop) (id : NodeId) : Prop :=
  ∃ x, Relation.ReflTransGen edge id x ∧ Relation.TransGen edge x x

/-- A path into a cycle: its last identifier is one of those before, and these are distinct. -/
structure Lasso (edge : NodeId → NodeId → Prop) (path : List NodeId) : Prop where
  follows : path.IsChain edge
  distinct : path.dropLast.Nodup
  closes : ∃ last ∈ path.getLast?, last ∈ path.dropLast

/-- The order of paths by their identifiers, one after the other. -/
def Precedes : List NodeId → List NodeId → Prop := Lex fun a b => compare a b = .lt

/-- The first in order of the paths into a cycle with some property. -/
structure First (edge : NodeId → NodeId → Prop) (among : List NodeId → Prop) (path : List NodeId)
    : Prop where
  lasso : Lasso edge path
  listed : among path
  least : ∀ other, Lasso edge other → among other → other = path ∨ Precedes path other

def Answers (edge : NodeId → NodeId → Prop) (among : List NodeId → Prop)
    : Option (List NodeId) → Prop
  | some path => First edge among path
  | none => ∀ path, Lasso edge path → ¬ among path

theorem lasso_concat {body : List NodeId} {last : NodeId}
    : Lasso edge (body ++ [last])
      ↔ (body ++ [last]).IsChain edge ∧ body.Nodup ∧ last ∈ body := by
  constructor
  · rintro ⟨follows, distinct, x, ends, closes⟩
    obtain rfl : last = x := by simpa using ends
    rw [dropLast_concat] at distinct closes
    exact ⟨follows, distinct, closes⟩
  · rintro ⟨follows, distinct, closes⟩
    exact ⟨follows, by rwa [dropLast_concat], last, by simp, by rwa [dropLast_concat]⟩

theorem Lasso.exists_concat (h : Lasso edge path) : ∃ body last, path = body ++ [last] := by
  obtain ⟨last, ends, _⟩ := h.closes
  exact ⟨path.dropLast, last, (dropLast_append_getLast? last ends).symm⟩

theorem Lasso.not_nodup (h : Lasso edge path) : ¬ path.Nodup := by
  obtain ⟨body, last, rfl⟩ := h.exists_concat
  have closes := (lasso_concat.mp h).2.2
  intro distinct
  exact (nodup_append.mp distinct).2.2 last closes last (by simp) rfl

/-- A path that comes back to itself begins with a path into a cycle. -/
theorem exists_lasso_prefix (follows : path.IsChain edge) (back : ¬ path.Nodup)
    : ∃ first, first <+: path ∧ Lasso edge first := by
  induction path using List.reverseRecOn with
  | nil => simp at back
  | append_singleton body last ih =>
    by_cases distinct : body.Nodup
    · have closes : last ∈ body := by
        by_contra new
        exact back (nodup_append.mpr ⟨distinct, by simp, by rintro a inside _ here rfl; simp_all⟩)
      exact ⟨body ++ [last], prefix_rfl, lasso_concat.mpr ⟨follows, distinct, closes⟩⟩
    · obtain ⟨first, begins, lasso⟩ := ih follows.left_of_append distinct
      exact ⟨first, begins.trans (prefix_append _ _), lasso⟩

/-- From every identifier on a path into a cycle the cycle can be reached. -/
theorem Lasso.reachable (h : Lasso edge path) {x : NodeId} (member : x ∈ path)
    : Reachable edge x := by
  obtain ⟨body, last, rfl⟩ := h.exists_concat
  obtain ⟨follows, _, closes⟩ := lasso_concat.mp h
  have onwards {y : NodeId} {before after : List NodeId}
      (split : body ++ [last] = before ++ y :: after) : Relation.ReflTransGen edge y last := by
    have chain : (y :: after).IsChain edge := (split ▸ follows).right_of_append
    refine relationReflTransGen_of_exists_isChain_cons after chain ?_
    have ends := congrArg getLast? split
    rw [getLast?_concat, getLast?_append_of_ne_nil _ (by simp), getLast?_eq_some_getLast (by simp)]
      at ends
    exact (Option.some.inj ends).symm
  obtain ⟨before, after, split⟩ := append_of_mem member
  refine ⟨last, onwards split, ?_⟩
  obtain ⟨before, after, rfl⟩ := append_of_mem closes
  cases after with
  | nil =>
    have twice : [last, last].IsChain edge := by
      rw [append_assoc] at follows
      exact follows.right_of_append
    exact .single (isChain_pair.mp twice)
  | cons y after =>
    have chain : (last :: y :: (after ++ [last])).IsChain edge := by
      have all : (before ++ last :: y :: (after ++ [last])).IsChain edge := by simpa using follows
      exact all.right_of_append
    have split : before ++ last :: y :: after ++ [last]
        = before ++ [last] ++ y :: (after ++ [last]) := by simp
    exact .head' (isChain_cons_cons.mp chain).1 (onwards split)

variable {before ids : List NodeId} {visit : Std.TreeSet NodeId → NodeId → Search}

/-- A path without repetitions to an identifier that a cycle can be reached from goes on into one. -/
theorem Reachable.exists_lasso {id : NodeId} (h : Reachable edge id)
    (follows : (before ++ [id]).IsChain edge) (distinct : (before ++ [id]).Nodup)
    : ∃ path, Lasso edge path ∧ before ++ [id] <+: path := by
  obtain ⟨x, there, round⟩ := h
  obtain ⟨y, step, back⟩ := Relation.TransGen.head'_iff.mp round
  obtain ⟨out, chain, ends⟩ := exists_isChain_cons_of_relationReflTransGen there
  obtain ⟨home, chain', ends'⟩ := exists_isChain_cons_of_relationReflTransGen back
  have whole : (before ++ [id] ++ (out ++ y :: home)).IsChain edge := by
    have walk : (id :: out ++ y :: home).IsChain edge := by
      refine chain.append chain' fun a last b first => ?_
      rw [getLast?_eq_some_getLast (by simp), ends] at last
      obtain rfl : x = a := by simpa using last
      obtain rfl : y = b := by simpa using first
      exact step
    have joined := IsChain.append_overlap follows (by simpa using walk) (by simp)
    simpa using joined
  have twice : ¬ (before ++ [id] ++ (out ++ y :: home)).Nodup := by
    intro all
    have walk : ((id :: out) ++ (y :: home)).Nodup := by
      rw [append_assoc, singleton_append] at all
      simpa using (nodup_append.mp all).2.1
    exact (nodup_append.mp walk).2.2 x (ends ▸ getLast_mem _) x (ends' ▸ getLast_mem _) rfl
  obtain ⟨path, begins, lasso⟩ := exists_lasso_prefix whole twice
  rcases prefix_or_prefix_of_prefix begins (prefix_append _ _) with shorter | longer
  · exact absurd (distinct.sublist shorter.sublist) lasso.not_nodup
  · exact ⟨path, lasso, longer⟩

/-- An identifier that a cycle can be reached from has an edge. -/
theorem Reachable.exists_edge {id : NodeId} (h : Reachable edge id) : ∃ x, edge id x := by
  obtain ⟨x, there, round⟩ := h
  rcases Relation.ReflTransGen.cases_head there with rfl | ⟨y, step, _⟩
  · obtain ⟨y, step, _⟩ := Relation.TransGen.head'_iff.mp round
    exact ⟨y, step⟩
  · exact ⟨y, step⟩

/-- There is one first path at most. -/
theorem First.unique {among : List NodeId → Prop} {other : List NodeId} (h : First edge among path)
    (h' : First edge among other) : path = other := by
  have order : Std.Asymm fun a b : NodeId => compare a b = .lt :=
    ⟨fun _ _ => Std.OrientedCmp.not_lt_of_lt⟩
  rcases h.least other h'.lasso h'.listed with same | less
  · exact same.symm
  · rcases h'.least path h.lasso h.listed with same | more
    · exact same
    · exact absurd more ((Lex.asymm _).asymm _ _ less)

/-- Properties that are the same of paths into cycles have the same answers. -/
theorem Answers.congr {among among' : List NodeId → Prop} {answer : Option (List NodeId)}
    (h : Answers edge among answer) (same : ∀ path, Lasso edge path → (among path ↔ among' path))
    : Answers edge among' answer := by
  cases answer with
  | none => exact fun path lasso listed => h path lasso ((same path lasso).mpr listed)
  | some path =>
    exact ⟨h.lasso, (same path h.lasso).mp h.listed, fun other lasso listed =>
      h.least other lasso ((same other lasso).mpr listed)⟩

/-- Paths that go on with identifiers in their order are tried in order. -/
theorem answers_findSome? (sorted : ids.Pairwise (compare · · = .lt))
    {visit : NodeId → Option (List NodeId)}
    (each : ∀ id ∈ ids, Answers edge (before ++ [id] <+: ·) (visit id))
    : Answers edge (fun path => ∃ id ∈ ids, before ++ [id] <+: path) (ids.findSome? visit) := by
  induction ids with
  | nil => simp [Answers]
  | cons id ids ih =>
    obtain ⟨less, sorted⟩ := pairwise_cons.mp sorted
    have here := each id mem_cons_self
    have later := ih sorted fun x member => each x (mem_cons_of_mem _ member)
    rw [findSome?_cons]
    cases found : visit id with
    | some path =>
      rw [found] at here
      refine ⟨here.lasso, ⟨id, mem_cons_self, here.listed⟩, fun other lasso listed => ?_⟩
      obtain ⟨x, member, begins⟩ := listed
      rcases mem_cons.mp member with rfl | after
      · exact here.least other lasso begins
      · obtain ⟨rest, rfl⟩ := here.listed
        obtain ⟨rest', rfl⟩ := begins
        have first : Precedes ([id] ++ rest) ([x] ++ rest') := .rel (less x after)
        rw [append_assoc, append_assoc]
        exact .inr (Lex.append_left _ first before)
    | none =>
      rw [found] at here
      refine later.congr fun path lasso => ?_
      have other : ¬ before ++ [id] <+: path := here path lasso
      simp [other]

-- Searching without a memory

def searchAll (next : NodeId → List NodeId) : Nat → List NodeId → NodeId → Option (List NodeId)
  | 0, _, _ => none
  | n + 1, path, id =>
    if id ∈ path then some (id :: path).reverse
    else (next id).findSome? (searchAll next n (id :: path))

def Listed (next : NodeId → List NodeId) (a b : NodeId) : Prop := b ∈ next a

/-- Where a search may stand: `path` leads to `id`, and there are enough steps left. -/
structure OnPath (next : NodeId → List NodeId) (all : List NodeId) (steps : Nat)
    (path : List NodeId) (id : NodeId) : Prop where
  follows : (id :: path).reverse.IsChain (Listed next)
  distinct : path.Nodup
  inside : path ⊆ all
  budget : all.length < steps + path.length

/-- A graph with the identifiers `all`, in which edges are listed in order. -/
structure Graph (next : NodeId → List NodeId) (all : List NodeId) : Prop where
  complete : ∀ id, next id ≠ [] → id ∈ all
  sorted : ∀ id, (next id).Pairwise (compare · · = .lt)

section

variable {next : NodeId → List NodeId} {all : List NodeId} {steps : Nat} {id : NodeId}

theorem OnPath.start (next : NodeId → List NodeId) (all : List NodeId) (id : NodeId)
    : OnPath next all (all.length + 1) [] id :=
  ⟨by simp, .nil, by simp, by simp⟩

/-- A search never runs out of steps: what it has passed are distinct identifiers of the graph. -/
theorem OnPath.steps_pos (h : OnPath next all steps path id) : 0 < steps := by
  have fits := (h.distinct.subperm h.inside).length_le
  have budget := h.budget
  omega

theorem OnPath.nodup (h : OnPath next all steps path id) (new : id ∉ path)
    : (id :: path).reverse.Nodup :=
  nodup_reverse.mpr (nodup_cons.mpr ⟨new, h.distinct⟩)

/-- A search goes on from a new identifier to the next one. -/
theorem OnPath.step (graph : Graph next all) (h : OnPath next all (steps + 1) path id)
    (new : id ∉ path) {x : NodeId} (listed : x ∈ next id)
    : OnPath next all steps (id :: path) x where
  follows := by
    rw [isChain_reverse]
    exact .cons_cons listed (isChain_reverse.mp h.follows)
  distinct := nodup_cons.mpr ⟨new, h.distinct⟩
  inside := cons_subset.mpr ⟨graph.complete id (ne_nil_of_mem listed), h.inside⟩
  budget := by
    have budget := h.budget
    simp only [length_cons]
    omega

/-- A path into a cycle that begins without a repetition goes on with an edge. -/
theorem Lasso.goes_on (lasso : Lasso (Listed next) path) (distinct : (before ++ [id]).Nodup)
    : before ++ [id] <+: path ↔ ∃ x ∈ next id, before ++ [id] ++ [x] <+: path := by
  constructor
  · rintro ⟨rest, rfl⟩
    cases rest with
    | nil => exact absurd (by simpa using distinct) lasso.not_nodup
    | cons x rest =>
      have chain : (before ++ id :: x :: rest).IsChain (Listed next) := by
        simpa using lasso.follows
      exact ⟨x, (isChain_cons_cons.mp chain.right_of_append).1, rest, by simp⟩
  · rintro ⟨x, _, begins⟩
    exact (prefix_append _ _).trans begins

/-- A search that follows every path answers with the first path into a cycle which begins with its
own, by induction on the steps that are left. -/
theorem answers_searchAll (graph : Graph next all) (h : OnPath next all steps path id)
    : Answers (Listed next) ((id :: path).reverse <+: ·) (searchAll next steps path id) := by
  induction steps generalizing path id with
  | zero => exact absurd h.steps_pos (by simp)
  | succ steps ih =>
    rw [searchAll]
    split
    · rename_i closes
      have lasso : Lasso (Listed next) (id :: path).reverse := by
        have follows := h.follows
        rw [reverse_cons] at follows ⊢
        exact lasso_concat.mpr ⟨follows, nodup_reverse.mpr h.distinct, mem_reverse.mpr closes⟩
      refine ⟨lasso, prefix_rfl, fun other lasso' begins => ?_⟩
      -- no path into a cycle is longer than another one that it begins with
      obtain ⟨body, last, rfl⟩ := lasso'.exists_concat
      rcases prefix_concat_iff.mp begins with same | shorter
      · exact .inl same.symm
      · exact absurd ((lasso_concat.mp lasso').2.1.sublist shorter.sublist) lasso.not_nodup
    · rename_i new
      have each : ∀ x ∈ next id, Answers (Listed next) ((id :: path).reverse ++ [x] <+: ·)
          (searchAll next steps (id :: path) x) := by
        intro x listed
        have below := ih (h.step graph new listed)
        rwa [reverse_cons] at below
      refine (answers_findSome? (graph.sorted id) each).congr fun other lasso => ?_
      have distinct := h.nodup new
      rw [reverse_cons] at distinct ⊢
      exact (lasso.goes_on distinct).symm

-- Searching with a memory

def Search.path? : Search → Option (List NodeId)
  | found path => some path
  | clear _ => none

theorem find?_eq (next : NodeId → List NodeId) (size : Nat) (start : NodeId)
    : find? next size start = (search next (size + 1) [] ∅ start).path? := by
  unfold find?
  cases search next (size + 1) [] ∅ start <;> rfl

def Sound (next : NodeId → List NodeId) (known : Std.TreeSet NodeId) : Prop :=
  ∀ x ∈ known, ¬ Reachable (Listed next) x

def Recalls (next : NodeId → List NodeId) (answer : Option (List NodeId)) (s : Search) : Prop :=
  s.path? = answer ∧ ∀ known, s = .clear known → Sound next known

theorem recalls_tryEach {known : Std.TreeSet NodeId} {answer : NodeId → Option (List NodeId)}
    (each : ∀ x ∈ ids, ∀ known, Sound next known → Recalls next (answer x) (visit known x))
    (sound : Sound next known) : Recalls next (ids.findSome? answer) (tryEach visit known ids) := by
  induction ids generalizing known with
  | nil => exact ⟨rfl, by rintro _ ⟨⟩; exact sound⟩
  | cons x ids ih =>
    have here := each x mem_cons_self known sound
    rw [tryEach, findSome?_cons]
    cases found : visit known x with
    | found path =>
      rw [found] at here
      rw [← here.1]
      exact ⟨rfl, by simp⟩
    | clear known' =>
      rw [found] at here
      rw [← here.1]
      exact ih (fun y member => each y (mem_cons_of_mem _ member)) (here.2 known' rfl)

/-- What is remembered makes no difference to the answer. -/
theorem recalls_search (graph : Graph next all) {known : Std.TreeSet NodeId}
    (h : OnPath next all steps path id) (sound : Sound next known)
    : Recalls next (searchAll next steps path id) (search next steps path known id) := by
  induction steps generalizing path id known with
  | zero => exact absurd h.steps_pos (by simp)
  | succ steps ih =>
    have answers := answers_searchAll graph h
    rw [search]
    split
    · rename_i closes
      rw [searchAll, if_pos closes]
      exact ⟨rfl, by simp⟩
    · rename_i new
      split
      · rename_i remembered
        refine ⟨?_, by rintro _ ⟨⟩; exact sound⟩
        -- a path from here would lead into a cycle
        cases found : searchAll next (steps + 1) path id with
        | none => rfl
        | some first =>
          rw [found] at answers
          have member : id ∈ first := answers.listed.subset (by simp)
          exact absurd (answers.lasso.reachable member)
            (sound id (Std.TreeSet.contains_iff_mem.mp remembered))
      · have below := recalls_tryEach
          (fun x listed known sound => ih (h.step graph new listed) sound) sound
        have same : searchAll next (steps + 1) path id
            = (next id).findSome? (searchAll next steps (id :: path)) := by
          rw [searchAll, if_neg new]
        rw [← same] at below
        cases outcome : tryEach (search next steps (id :: path)) known (next id) with
        | found first =>
          rw [outcome] at below
          exact ⟨below.1, by simp⟩
        | clear known' =>
          rw [outcome] at below
          refine ⟨below.1, ?_⟩
          rintro _ ⟨⟩ x member
          rcases Std.TreeSet.mem_insert.mp member with own | old
          · -- the search has seen every path from here
            obtain rfl : id = x := Std.LawfulEqOrd.compare_eq_iff_eq.mp own
            intro reachable
            obtain ⟨first, lasso, begins⟩ := reachable.exists_lasso
              (by simpa using h.follows) (by simpa using h.nodup new)
            rw [← below.1] at answers
            exact answers first lasso (by simpa using begins)
          · exact below.2 known' rfl x old

end

-- Searching without a bound

mutual

/-- How a search comes to its end that may take any number of steps. -/
inductive Visits (next : NodeId → List NodeId)
    : List NodeId → Std.TreeSet NodeId → NodeId → Search → Prop
  | closes {path : List NodeId} {known : Std.TreeSet NodeId} {id : NodeId} (old : id ∈ path)
    : Visits next path known id (.found (id :: path).reverse)
  | remembers {path : List NodeId} {known : Std.TreeSet NodeId} {id : NodeId} (new : id ∉ path)
      (left : known.contains id) : Visits next path known id (.clear known)
  | finds {path first : List NodeId} {known : Std.TreeSet NodeId} {id : NodeId} (new : id ∉ path)
      (unknown : known.contains id = false)
      (inside : TriesEach next (id :: path) known (next id) (.found first))
    : Visits next path known id (.found first)
  | leaves {path : List NodeId} {known known' : Std.TreeSet NodeId} {id : NodeId} (new : id ∉ path)
      (unknown : known.contains id = false)
      (inside : TriesEach next (id :: path) known (next id) (.clear known'))
    : Visits next path known id (.clear (known'.insert id))

/-- How identifiers are tried one after the other. -/
inductive TriesEach (next : NodeId → List NodeId)
    : List NodeId → Std.TreeSet NodeId → List NodeId → Search → Prop
  | done {path : List NodeId} {known : Std.TreeSet NodeId}
    : TriesEach next path known [] (.clear known)
  | finds {path first rest : List NodeId} {known : Std.TreeSet NodeId} {id : NodeId}
      (here : Visits next path known id (.found first))
    : TriesEach next path known (id :: rest) (.found first)
  | goesOn {path rest : List NodeId} {known known' : Std.TreeSet NodeId} {id : NodeId} {s : Search}
      (here : Visits next path known id (.clear known')) (later : TriesEach next path known' rest s)
    : TriesEach next path known (id :: rest) s

end

section

variable {next : NodeId → List NodeId} {all : List NodeId} {steps : Nat} {id : NodeId}

theorem triesEach_tryEach (each : ∀ x ∈ ids, ∀ known, Visits next path known x (visit known x))
    (known : Std.TreeSet NodeId) : TriesEach next path known ids (tryEach visit known ids) := by
  induction ids generalizing known with
  | nil => exact .done
  | cons x ids ih =>
    have here := each x mem_cons_self known
    rw [tryEach]
    cases found : visit known x with
    | found first => exact .finds (found ▸ here)
    | clear known' =>
      have later := ih (fun y member => each y (mem_cons_of_mem _ member)) known'
      exact .goesOn (found ▸ here) later

/-- The steps that a search is given are enough: it ends as one does that may take any number. -/
theorem visits_search (graph : Graph next all) (known : Std.TreeSet NodeId)
    (h : OnPath next all steps path id)
    : Visits next path known id (search next steps path known id) := by
  induction steps generalizing path id known with
  | zero => exact absurd h.steps_pos (by simp)
  | succ steps ih =>
    rw [search]
    split
    · rename_i closes
      exact .closes closes
    · rename_i new
      split
      · rename_i remembered
        exact .remembers new remembered
      · rename_i unknown
        have inside := triesEach_tryEach
          (fun x listed known => ih known (h.step graph new listed)) known
        have unknown := Bool.eq_false_of_not_eq_true unknown
        cases outcome : tryEach (search next steps (id :: path)) known (next id) with
        | found first => exact .finds new unknown (outcome ▸ inside)
        | clear known' => exact .leaves new unknown (outcome ▸ inside)

end

end Cycle

-- Namespaces

namespace Dependency

variable (d : Dependency)

theorem mem_successors {a b : NodeId} : b ∈ d.successors a ↔ d.Depends a b := by
  unfold successors Depends
  cases d.spaces[a]? <;> simp

theorem listed_successors : Cycle.Listed d.successors = d.Depends := by
  funext a b
  exact propext d.mem_successors

theorem mem_spaces_of_depends {a b : NodeId} (h : d.Depends a b) : a ∈ d.spaces := by
  obtain ⟨s, found, _⟩ := h
  exact Std.TreeMap.mem_iff_isSome_getElem?.mpr (by simp [found])

/-- The graph of namespaces has their records for identifiers. -/
theorem graph_successors : Cycle.Graph d.successors d.spaces.keys where
  complete id some := by
    obtain ⟨x, listed⟩ := exists_mem_of_ne_nil _ some
    exact Std.TreeMap.mem_keys.mpr (d.mem_spaces_of_depends (d.mem_successors.mp listed))
  sorted id := by
    unfold successors
    cases d.spaces[id]? with
    | none => exact .nil
    | some s => exact s.efferent.ordered_toList

theorem onPath_start (id : NodeId)
    : Cycle.OnPath d.successors d.spaces.keys (d.spaces.size + 1) [] id := by
  have start := Cycle.OnPath.start d.successors d.spaces.keys id
  rwa [Std.TreeMap.length_keys] at start

/-- A search that remembers nothing finds the same. -/
theorem find?_eq_searchAll (id : NodeId)
    : Cycle.find? d.successors d.spaces.size id
      = Cycle.searchAll d.successors (d.spaces.size + 1) [] id := by
  have nothing : Cycle.Sound d.successors ∅ := by simp [Cycle.Sound]
  rw [Cycle.find?_eq]
  exact (Cycle.recalls_search d.graph_successors (d.onPath_start id) nothing).1

/-- The search answers with the first path from a namespace into a cycle. -/
theorem answers_find? (id : NodeId)
    : Cycle.Answers d.Depends ([id] <+: ·) (Cycle.find? d.successors d.spaces.size id) := by
  have answers := Cycle.answers_searchAll d.graph_successors (d.onPath_start id)
  rwa [← d.find?_eq_searchAll, d.listed_successors, reverse_singleton] at answers

/-- Nothing is found from what is no namespace. -/
theorem cycle?_eq (id : NodeId)
    : d.cycle? id = (Cycle.find? d.successors d.spaces.size id).map d.names := by
  unfold cycle?
  split
  · rfl
  · rename_i unknown
    have answers := d.answers_find? id
    cases found : Cycle.find? d.successors d.spaces.size id with
    | none => rfl
    | some path =>
      rw [found] at answers
      have member : id ∈ path := answers.listed.subset mem_cons_self
      obtain ⟨x, step⟩ := (answers.lasso.reachable member).exists_edge
      exact absurd (Std.TreeMap.contains_iff_mem.mpr (d.mem_spaces_of_depends step)) unknown

/-- Whether a namespace has a name. -/
def IsNamed (id : NodeId) (name : String) : Prop := ∃ s, d.spaces[id]? = some s ∧ s.name = name

/-- A path into a cycle has a name for every namespace on it. -/
theorem forall₂_names (h : ∀ id ∈ path, id ∈ d.spaces) {names : List String}
    : Forall₂ d.IsNamed path names ↔ d.names path = names := by
  induction path generalizing names with
  | nil => simp [Dependency.names, eq_comm]
  | cons id path ih =>
    obtain ⟨s, found⟩ := Linked.exists_record (h id mem_cons_self)
    have rest := @ih (fun x member => h x (mem_cons_of_mem _ member))
    have split : d.names (id :: path) = s.name :: d.names path := by simp [Dependency.names, found]
    rw [split, forall₂_cons_left_iff]
    constructor
    · rintro ⟨_, names, ⟨_, here, rfl⟩, others, rfl⟩
      obtain rfl : s = _ := Option.some.inj (found.symm.trans here)
      rw [rest.mp others]
    · rintro rfl
      exact ⟨_, _, ⟨s, found, rfl⟩, rest.mpr rfl, rfl⟩

/-- A path into a cycle goes through namespaces. -/
theorem mem_spaces_of_lasso (lasso : Cycle.Lasso d.Depends path) : ∀ id ∈ path, id ∈ d.spaces := by
  intro id member
  obtain ⟨x, step⟩ := (lasso.reachable member).exists_edge
  exact d.mem_spaces_of_depends step

theorem cycle?_eq_none_iff (id : NodeId)
    : d.cycle? id = none ↔ ¬ Cycle.Reachable d.Depends id := by
  have answers := d.answers_find? id
  rw [d.cycle?_eq, Option.map_eq_none_iff]
  cases found : Cycle.find? d.successors d.spaces.size id with
  | none =>
    rw [found] at answers
    refine iff_of_true rfl fun reachable => ?_
    have alone : ([] ++ [id]).IsChain d.Depends := by simp
    obtain ⟨path, lasso, begins⟩ := reachable.exists_lasso alone (by simp)
    exact answers path lasso begins
  | some path =>
    rw [found] at answers
    exact iff_of_false (by simp)
      (not_not.mpr (answers.lasso.reachable (answers.listed.subset mem_cons_self)))

theorem cycle?_eq_some_iff (id : NodeId) (names : List String)
    : d.cycle? id = some names
      ↔ ∃ path, Cycle.First d.Depends ([id] <+: ·) path ∧ Forall₂ d.IsNamed path names := by
  have answers := d.answers_find? id
  rw [d.cycle?_eq, Option.map_eq_some_iff]
  constructor
  · rintro ⟨path, found, named⟩
    rw [found] at answers
    exact ⟨path, answers, (d.forall₂_names (d.mem_spaces_of_lasso answers.lasso)).mpr named⟩
  · rintro ⟨path, first, named⟩
    refine ⟨path, ?_, (d.forall₂_names (d.mem_spaces_of_lasso first.lasso)).mp named⟩
    cases found : Cycle.find? d.successors d.spaces.size id with
    | none =>
      rw [found] at answers
      exact absurd first.listed (answers path first.lasso)
    | some other =>
      rw [found] at answers
      rw [Cycle.First.unique answers first]

theorem countP_cycle?
    : d.spaces.keys.countP (fun id => (d.cycle? id).isSome)
      = Set.ncard {id | id ∈ d.spaces ∧ Cycle.Reachable d.Depends id} := by
  have distinct : (d.spaces.keys.filter fun id => (d.cycle? id).isSome).Nodup :=
    d.spaces.nodup_keys.filter _
  have same : {id | id ∈ d.spaces ∧ Cycle.Reachable d.Depends id}
      = ((d.spaces.keys.filter fun id => (d.cycle? id).isSome).toFinset : Set NodeId) := by
    ext id
    have none := d.cycle?_eq_none_iff id
    simp only [Set.mem_ofPred_eq, coe_toFinset, mem_filter, Std.TreeMap.mem_keys,
      ← Option.isNone_iff_eq_none, ← Option.not_isSome] at none ⊢
    grind
  rw [same, Set.ncard_coe_finset, toFinset_card_of_nodup distinct, countP_eq_length_filter]

/-- Cycles of namespaces. There is an answer for a namespace if and only if a cycle can be reached
from it, and then it has the names on the first path that leads from the namespace into a cycle. The
search ends as if it had no bound, what it remembers makes no difference to the answer, and the
namespaces with an answer are counted. -/
theorem first_path_into_cycle
    : (∀ id, d.cycle? id = none ↔ ¬ Cycle.Reachable d.Depends id)
      ∧ (∀ id names, d.cycle? id = some names
        ↔ ∃ path, Cycle.First d.Depends ([id] <+: ·) path ∧ Forall₂ d.IsNamed path names)
      ∧ (∀ id, ∃ s, Cycle.Visits d.successors [] ∅ id s ∧ d.cycle? id = s.path?.map d.names)
      ∧ (∀ id, d.cycle? id
        = (Cycle.searchAll d.successors (d.spaces.size + 1) [] id).map d.names)
      ∧ d.projectMetrics
        = [("cyclic", count (Set.ncard {id | id ∈ d.spaces ∧ Cycle.Reachable d.Depends id}))] := by
  refine ⟨d.cycle?_eq_none_iff, d.cycle?_eq_some_iff, fun id => ?_, fun id => ?_, ?_⟩
  · refine ⟨_, Cycle.visits_search d.graph_successors ∅ (d.onPath_start id), ?_⟩
    rw [d.cycle?_eq, Cycle.find?_eq]
  · rw [d.cycle?_eq, d.find?_eq_searchAll]
  · rw [projectMetrics, d.countP_cycle?]

end Dependency

end DesignMetrics
