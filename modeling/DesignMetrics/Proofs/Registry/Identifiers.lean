import DesignMetrics.Proofs.Registry.Alike

/-! Identifiers can be read back.
An identifier ends in the tag of its kind, and no tag has a second spelling, so identifiers of
different kinds differ in any case. The first colon in the identifier of a member stands behind the
name of its type, as long as that name has none.
-/

namespace DesignMetrics

/-- What an identifier is made of. -/
inductive Naming where
  | space (name : String)
  | classType (name : String)
  | interfaceType (name : String)
  | function (name : String)
  | method (declaring name : String)
  | property (declaring name : String)

namespace Naming

def kind : Naming → NodeKind
  | space _ => .space
  | classType _ => .classType
  | interfaceType _ => .interfaceType
  | function _ => .function
  | method .. => .method
  | property .. => .property

def id : Naming → NodeId
  | space name => .space name
  | classType name => .classType name
  | interfaceType name => .interfaceType name
  | function name => .function name
  | method declaring name => .method declaring name
  | property declaring name => .property declaring name

/-- The tag of an identifier says how it was made. -/
theorem exists_key (n : Naming) : ∃ key, n.id = .ofKey key n.kind := by
  cases n <;> exact ⟨_, rfl⟩

/-- Spellings of one identifier were made in the same way. -/
theorem kind_eq_of_lower {a b : Naming} (h : Text.lower a.id.text = Text.lower b.id.text)
    : a.kind = b.kind := by
  obtain ⟨key, left⟩ := a.exists_key
  obtain ⟨key', right⟩ := b.exists_key
  rw [left, right, NodeId.lower_text_inj] at h
  exact h.1

end Naming

open NodeId Text

/-- Identifiers give back their key and their kind, whatever the key. No two that are made in different
ways are equal, even up to case. Those of methods and properties tell the type and the member, exactly
and up to case, if type names have no colon. -/
theorem identifiers_readable
    : (∀ key kind, (ofKey key kind).key = key ∧ (ofKey key kind).kind? = some kind)
      ∧ (∀ a b : Naming, lower a.id.text = lower b.id.text → a.kind = b.kind)
      ∧ ∀ s t : String, ':' ∉ s.toList → ':' ∉ t.toList → ∀ m n : String,
          (method s m = method t n → s = t ∧ m = n)
          ∧ (property s m = property t n → s = t ∧ m = n)
          ∧ (lower (method s m).text = lower (method t n).text ↔ lower s = lower t ∧ lower m = lower n)
          ∧ (lower (property s m).text = lower (property t n).text
              ↔ lower s = lower t ∧ lower m = lower n) := by
  refine ⟨fun key kind => ⟨key_ofKey key kind, kind?_ofKey key kind⟩,
    fun _ _ => Naming.kind_eq_of_lower, fun s t left right m n => ⟨?_, ?_, ?_, ?_⟩⟩
  · exact (method_inj left right).mp
  · exact (property_inj left right).mp
  · exact lower_method_inj left right
  · exact lower_property_inj left right

/-- Colons in the name of a member do not matter. -/
theorem identifiers_readable_colons
    : ':' ∉ "App\\Cart".toList ∧ (ofKey "a#m#b" .property).key = "a#m#b"
      ∧ method "App\\Cart" "::b" ≠ method "app\\cart" "::b"
      ∧ lower (method "App\\Cart" "::b").text = lower (method "app\\cart" "::B").text
      ∧ lower (method "App\\Cart" "::b").text ≠ lower (method "App\\Cart" "b").text := by
  obtain ⟨keys, _, members⟩ := identifiers_readable
  have plain : ':' ∉ "App\\Cart".toList := by decide
  have plain' : ':' ∉ "app\\cart".toList := by decide
  refine ⟨plain, (keys "a#m#b" .property).1, fun same => ?_, ?_, fun same => ?_⟩
  · exact absurd ((members _ _ plain plain' _ _).1 same).1 (by decide)
  · exact (members _ _ plain plain' _ _).2.2.1.mpr ⟨by decide, by decide⟩
  · exact absurd ((members _ _ plain plain _ _).2.2.1.mp same).2 (by decide)

end DesignMetrics
