import DesignMetrics.Proofs.Registry.Alike
import DesignMetrics.Run

/-! Keys that end in a hash.
A hash is written in hexadecimal digits, so a key can be cut at its last separator, and units with one
key have one path and one hash.
-/

namespace DesignMetrics

namespace Digest

/-- Only digits stand in a number. -/
theorem notMem_hex {c : Char} (other : ∀ n < 16, hexDigit n ≠ c) (bytes : List UInt8)
    : c ∉ (hex bytes).toList := by
  rw [hex, String.toList_ofList]
  intro member
  obtain ⟨b, _, digit⟩ := List.mem_flatMap.mp member
  have high : b.toNat / 16 < 16 := Nat.div_lt_of_lt_mul b.toNat_lt
  have low : b.toNat % 16 < 16 := Nat.mod_lt _ (by decide)
  rcases List.mem_cons.mp digit with first | rest
  · exact other _ high first.symm
  · exact other _ low (List.mem_singleton.mp rest).symm

/-- What a hash is attached to can be told from the whole, and so can the hash. -/
theorem Blake3.eq_of_keys {a b : String} {x y : ByteArray}
    (h : a ++ "@" ++ hexHash x = b ++ "@" ++ hexHash y) : a = b ∧ hexHash x = hexHash y := by
  have turned (s : String) (bytes : ByteArray)
      : (s ++ "@" ++ hexHash bytes).toList.reverse
        = (hexHash bytes).toList.reverse ++ '@' :: s.toList.reverse := by
    simp
  have none (bytes : ByteArray) : '@' ∉ (hexHash bytes).toList.reverse := by
    rw [List.mem_reverse]
    exact notMem_hex (by decide) _
  have cut := congrArg (fun s => s.toList.reverse) h
  simp only [turned] at cut
  obtain ⟨hashes, names⟩ := Text.eq_of_cut (none x) (none y) cut
  exact ⟨String.toList_inj.mp (List.reverse_inj.mp names),
    String.toList_inj.mp (List.reverse_inj.mp hashes)⟩

/-- Whether no two of the texts have the same hash. -/
def Blake3.Apart (texts : List ByteArray) : Prop :=
  ∀ x ∈ texts, ∀ y ∈ texts, hexHash x = hexHash y → x = y

instance (texts : List ByteArray) : Decidable (Blake3.Apart texts) :=
  inferInstanceAs (Decidable (∀ x ∈ texts, ∀ y ∈ texts, _ → _))

end Digest

/-- Files are kept under different keys if the hashes of their contents tell them apart. -/
theorem Run.eq_of_unitKey {sources : List InputFile}
    (apart : Digest.Blake3.Apart (sources.map InputFile.content)) {s t : InputFile}
    (left : s ∈ sources) (right : t ∈ sources) (h : unitKey s = unitKey t) : s = t := by
  obtain ⟨paths, hashes⟩ := Digest.Blake3.eq_of_keys (congrArg CacheKey.key h)
  have contents := apart _ (List.mem_map_of_mem left) _ (List.mem_map_of_mem right) hashes
  cases s
  cases t
  simp_all

end DesignMetrics
