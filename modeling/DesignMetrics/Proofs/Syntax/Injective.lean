import DesignMetrics.Proofs.Syntax.Recovery
import DesignMetrics.Syntax.Fingerprint

/-! Declarations that are written alike are the same.
The text of a declaration can be read back, however deeply the declaration is nested, so the text
determines it.
-/

namespace DesignMetrics

open Json

/-- The text of a value, as it is hashed and stored. -/
def Json.text (j : Json) : ByteArray := j.compact.toUTF8

theorem Json.eq_of_text_eq {j k : Json} (left : j.isDiscrete) (right : k.isDiscrete)
    (h : j.text = k.text) : j = k := by
  have texts : j.compact.toUTF8 = k.compact.toUTF8 := h
  have read := (parse?_discrete left).1
  rw [texts, (parse?_discrete right).1] at read
  exact (Option.some.inj read).symm

/-- What can be read back from a text is determined by the text. -/
theorem Json.Recovers.eq_of_text_eq {α : Type} {write : α → Json} {read : Reads α} {a b : α}
    (h : Recovers write read (write a).depth) (discrete : ∀ a, (write a).isDiscrete)
    (same : (write a).text = (write b).text) : a = b := by
  have whole := (parse?_discrete (discrete a)).2
  have found := (h.reading whole).found rfl (Nat.le_refl _)
  have values := Json.eq_of_text_eq (discrete a) (discrete b) same
  exact ((h.reading (values ▸ whole : Dimmed (write b) (write a))).only a found).1

/-- The text of a method determines it. -/
theorem MethodDecl.eq_of_text_eq {d d' : MethodDecl} (h : d.toJson.text = d'.toJson.text) : d = d' :=
  (recovers .ofText (Expr.recovers .ofText) (Stmt.recovers .ofText)).eq_of_text_eq isDiscrete_toJson h

/-- The text of a function determines it. -/
theorem FunctionDecl.eq_of_text_eq {d d' : FunctionDecl} (h : d.toJson.text = d'.toJson.text)
    : d = d' :=
  (recovers .ofText (Expr.recovers .ofText) (Stmt.recovers .ofText)).eq_of_text_eq isDiscrete_toJson h

/-- A method and a function are told apart by their texts. -/
theorem MethodDecl.text_ne {d : MethodDecl} {f : FunctionDecl} : d.toJson.text ≠ f.toJson.text := by
  intro same
  have values := Json.eq_of_text_eq d.isDiscrete_toJson f.isDiscrete_toJson same
  cases d
  cases f
  simp [MethodDecl.toJson, FunctionDecl.toJson] at values

end DesignMetrics
