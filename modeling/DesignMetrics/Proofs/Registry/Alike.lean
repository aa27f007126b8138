import DesignMetrics.Model.Registry

/-! Identifiers that stand for one node.
Two identifiers are alike if they are equal or differ in ASCII case only; those of properties are
alike only if they are equal. Kinds are never mixed up, and the identifier of a member tells the
name of its type as long as type names have no colon.
-/

namespace DesignMetrics

namespace Text

@[simp] theorem toList_lower (s : String) : (lower s).toList = s.toList.map Char.toLower := by
  simp [lower]

/-- Equal foldings are equal character by character. -/
theorem lower_eq_iff {s t : String}
    : lower s = lower t ↔ s.toList.map Char.toLower = t.toList.map Char.toLower := by
  rw [← String.toList_inj, toList_lower, toList_lower]

theorem toNat_toLower (c : Char)
    : c.toLower.toNat = if 65 ≤ c.toNat ∧ c.toNat ≤ 90 then c.toNat + 32 else c.toNat := by
  unfold Char.toLower
  by_cases upper : 65 ≤ c.toNat ∧ c.toNat ≤ 90
  · rw [dif_pos (show c.val ≥ 'A'.val ∧ c.val ≤ 'Z'.val from upper), if_pos upper]
    have high : c.val.toNat ≤ 90 := upper.2
    have value : (c.val + ('a'.val - 'A'.val)).toNat = c.val.toNat + 32 := by
      rw [UInt32.toNat_add]
      exact Nat.mod_eq_of_lt (by simp; omega)
    exact value
  · rw [dif_neg (show ¬ (c.val ≥ 'A'.val ∧ c.val ≤ 'Z'.val) from upper), if_neg upper]

/-- Only a sign folds to that sign: the letters that change become letters. -/
theorem toLower_eq_iff {sign : Char} (h : sign.toNat < 65 ∨ 90 < sign.toNat ∧ sign.toNat < 97) (c : Char)
    : c.toLower = sign ↔ c = sign := by
  rw [← Char.toNat_inj, ← Char.toNat_inj, toNat_toLower]
  split <;> omega

/-- What stands before and after a separator is determined if there is no other one before it. -/
theorem eq_of_cut {sep : Char} {a b c d : List Char} (left : sep ∉ a) (right : sep ∉ b)
    (h : a ++ sep :: c = b ++ sep :: d) : a = b ∧ c = d := by
  have cut {x y : List Char} (none : sep ∉ x) : (x ++ sep :: y).takeWhile (· ≠ sep) = x := by
    rw [List.takeWhile_append_of_pos]
    · simp
    · intro z member
      have other : z ≠ sep := fun same => none (same ▸ member)
      simpa using other
  have heads : a = b := by rw [← cut (y := c) left, h, cut right]
  subst heads
  exact ⟨rfl, by simpa using h⟩

end Text

variable {k l : NodeKind}

namespace NodeKind

theorem tag_injective (h : k.tag = l.tag) : k = l := by
  cases k <;> cases l <;> first | rfl | simp [tag] at h

/-- Tags are lower-case letters. -/
@[simp] theorem toLower_tag (k : NodeKind) : k.tag.toLower = k.tag := by
  cases k <;> rfl

end NodeKind

namespace NodeId

theorem text_injective {a b : NodeId} (h : a.text = b.text) : a = b := by
  cases a; cases b; exact congrArg NodeId.mk h

@[simp] theorem toList_ofKey (key : String) (kind : NodeKind)
    : (ofKey key kind).text.toList = key.toList ++ ['#', kind.tag] := by
  simp [ofKey]

/-- An identifier is folded unless its tag is that of a property. -/
theorem folded?_ofKey (key : String) (kind : NodeKind)
    : (ofKey key kind).folded?
      = if kind = .property then none else some (Text.lower (ofKey key kind).text) := by
  have suffix
      : "#p".toList.isSuffixOf (ofKey key kind).text.toList = decide (kind = .property) := by
    rw [toList_ofKey, Bool.eq_iff_iff, List.isSuffixOf_iff_suffix, decide_eq_true_iff]
    constructor
    · rintro ⟨before, same⟩
      have last := congrArg List.getLast? same
      simp at last
      exact NodeKind.tag_injective last.symm
    · rintro rfl
      exact ⟨key.toList, rfl⟩
  simp only [folded?, suffix, decide_eq_true_eq]

/-- Whether two identifiers stand for one node. -/
def Alike (a b : NodeId) : Prop := a = b ∨ (a.folded? = b.folded? ∧ a.folded? ≠ none)

instance (a b : NodeId) : Decidable (Alike a b) := inferInstanceAs (Decidable (_ ∨ _))

@[simp] theorem Alike.refl (a : NodeId) : a.Alike a := Or.inl rfl

theorem Alike.symm {a b : NodeId} (h : a.Alike b) : b.Alike a := by
  rcases h with rfl | ⟨same, known⟩
  · exact .refl a
  · exact Or.inr ⟨same.symm, same ▸ known⟩

theorem Alike.trans {a b c : NodeId} (left : a.Alike b) (right : b.Alike c) : a.Alike c := by
  rcases left with rfl | ⟨same, known⟩
  · exact right
  · rcases right with rfl | ⟨next, _⟩
    · exact Or.inr ⟨same, known⟩
    · exact Or.inr ⟨same.trans next, known⟩

variable {a b : String}

theorem ofKey_inj : ofKey a k = ofKey b l ↔ k = l ∧ a = b := by
  constructor
  · intro same
    have texts : (ofKey a k).text.toList = (ofKey b l).text.toList := by rw [same]
    simp only [toList_ofKey] at texts
    obtain ⟨keys, tags⟩ := List.append_inj' texts rfl
    simp at tags
    exact ⟨NodeKind.tag_injective tags, String.toList_inj.mp keys⟩
  · rintro ⟨rfl, rfl⟩
    rfl

/-- An identifier can be cut at its tag: the tag holds no separator. -/
theorem splitLast?_ofKey (key : String) (kind : NodeKind)
    : Text.splitLast? '#' (ofKey key kind).text = some (key, String.ofList [kind.tag]) := by
  have tag : (kind.tag != '#') = true := by cases kind <;> rfl
  simp [Text.splitLast?, tag]

@[simp] theorem key_ofKey (key : String) (kind : NodeKind) : (ofKey key kind).key = key := by
  simp [NodeId.key, splitLast?_ofKey]

@[simp] theorem kind?_ofKey (key : String) (kind : NodeKind)
    : (ofKey key kind).kind? = some kind := by
  simp [NodeId.kind?, splitLast?_ofKey]

/-- The tag is the last character, and folding leaves it alone. -/
theorem lower_text_inj
    : Text.lower (ofKey a k).text = Text.lower (ofKey b l).text
      ↔ k = l ∧ Text.lower a = Text.lower b := by
  simp only [Text.lower_eq_iff, toList_ofKey, List.map_append, List.map_cons, List.map_nil,
    NodeKind.toLower_tag]
  constructor
  · intro same
    obtain ⟨keys, tags⟩ := List.append_inj' same rfl
    simp at tags
    exact ⟨NodeKind.tag_injective tags, keys⟩
  · rintro ⟨rfl, keys⟩
    rw [keys]

/-- Identifiers made by the library are alike if their kinds agree and their keys do, up to case
except for properties.
-/
theorem alike_ofKey_iff
    : (ofKey a k).Alike (ofKey b l)
      ↔ k = l ∧ (a = b ∨ (k ≠ .property ∧ Text.lower a = Text.lower b)) := by
  unfold Alike
  rw [ofKey_inj, folded?_ofKey, folded?_ofKey]
  by_cases left : k = .property <;> by_cases right : l = .property
  · simp [left, right]
  · simp [left]
  · simp [left, right]
  · simp only [left, right, if_false, Option.some.injEq, lower_text_inj, ne_eq, reduceCtorEq,
      not_false_eq_true, and_true, true_and]
    exact and_or_left.symm

/-- Identifiers of different kinds never stand for one node. -/
theorem Alike.kind_eq (h : (ofKey a k).Alike (ofKey b l)) : k = l :=
  (alike_ofKey_iff.mp h).1

/-- Where no two items have identifiers that are alike, items with such identifiers are one. -/
theorem eq_of_pairwise {α : Type} {id : α → NodeId} {items : List α}
    (apart : items.Pairwise fun a b => ¬ (id a).Alike (id b)) {a b : α} (left : a ∈ items)
    (right : b ∈ items) (alike : (id a).Alike (id b)) : a = b := by
  induction items with
  | nil => simp at left
  | cons c items ih =>
    rw [List.pairwise_cons] at apart
    rcases List.mem_cons.mp left with rfl | first <;> rcases List.mem_cons.mp right with rfl | second
    · rfl
    · exact absurd alike (apart.1 b second)
    · exact absurd alike.symm (apart.1 a first)
    · exact ih apart.2 first second

/-- The key of a member tells the name of its type and its own name, up to any change of characters
that keeps colons and makes none. -/
theorem memberKey_inj {f : Char → Char} (colons : ∀ c, f c = ':' ↔ c = ':')
    (before after : List Char) {s t : List Char} (left : ':' ∉ s) (right : ':' ∉ t) (m n : List Char)
    : (s ++ ':' :: before ++ m ++ after).map f = (t ++ ':' :: before ++ n ++ after).map f
      ↔ s.map f = t.map f ∧ m.map f = n.map f := by
  have plain {name : List Char} (none : ':' ∉ name) : ':' ∉ name.map f := by
    intro member
    obtain ⟨c, inside, same⟩ := List.mem_map.mp member
    exact none ((colons c).mp same ▸ inside)
  simp only [List.map_append, List.map_cons, (colons ':').mpr rfl, List.append_assoc,
    List.cons_append]
  constructor
  · intro h
    obtain ⟨types, members⟩ := Text.eq_of_cut (plain left) (plain right) h
    exact ⟨types, List.append_cancel_right (List.append_cancel_left members)⟩
  · rintro ⟨types, members⟩
    rw [types, members]

section

variable {s t m n : String} (left : ':' ∉ s.toList) (right : ':' ∉ t.toList)

include left right

theorem method_inj : method s m = method t n ↔ s = t ∧ m = n := by
  have keys := memberKey_inj (fun _ => Iff.rfl) [':'] "()".toList left right m.toList n.toList
  simp only [List.map_id', String.toList_inj] at keys
  rw [← keys, method, method, ofKey_inj, ← String.toList_inj]
  simp

theorem property_inj : property s m = property t n ↔ s = t ∧ m = n := by
  have keys := memberKey_inj (fun _ => Iff.rfl) ":$".toList [] left right m.toList n.toList
  simp only [List.map_id', String.toList_inj] at keys
  rw [← keys, property, property, ofKey_inj, ← String.toList_inj]
  simp

theorem lower_method_inj
    : Text.lower (method s m).text = Text.lower (method t n).text
      ↔ Text.lower s = Text.lower t ∧ Text.lower m = Text.lower n := by
  have keys := memberKey_inj (Text.toLower_eq_iff (by decide)) [':'] "()".toList left right m.toList
    n.toList
  rw [method, method, lower_text_inj]
  simp only [Text.lower_eq_iff]
  rw [← keys]
  simp

theorem lower_property_inj
    : Text.lower (property s m).text = Text.lower (property t n).text
      ↔ Text.lower s = Text.lower t ∧ Text.lower m = Text.lower n := by
  have keys := memberKey_inj (Text.toLower_eq_iff (by decide)) ":$".toList [] left right m.toList
    n.toList
  rw [property, property, lower_text_inj]
  simp only [Text.lower_eq_iff]
  rw [← keys]
  simp

/-- Methods that are alike belong to types of one name, up to case. -/
theorem lower_eq_of_method_alike (h : (method s m).Alike (method t n))
    : Text.lower s = Text.lower t := by
  have texts : Text.lower (method s m).text = Text.lower (method t n).text :=
    lower_text_inj.mpr ⟨rfl, (alike_ofKey_iff.mp h).2.elim (congrArg Text.lower) And.right⟩
  exact ((lower_method_inj left right).mp texts).1

/-- Properties that are alike belong to types of one name. -/
theorem eq_of_property_alike (h : (property s m).Alike (property t n)) : s = t := by
  have same : property s m = property t n :=
    ofKey_inj.mpr ⟨rfl, (alike_ofKey_iff.mp h).2.resolve_right fun folded => folded.1 rfl⟩
  exact ((property_inj left right).mp same).1

end

end NodeId

end DesignMetrics
