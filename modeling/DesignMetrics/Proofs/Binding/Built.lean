import DesignMetrics.Proofs.Binding.FirstWins

/-! Where the contents of a registry come from.
Every node that binding registers stands for a part of a file, and every unit holds the draft of a
file. Files may hold markers already.
-/

namespace DesignMetrics

variable {n : Node} {files : List (SourceFile × String)}

/-- What binding a file adds to a registry stands for parts of the file. -/
theorem Tidy.stands_bind {r : Registry} (h : Tidy r) {file : SourceFile} {fingerprint : String}
    (member : n ∈ (file.bind fingerprint r).2.toList)
    : n ∈ r.toList ∨ ∃ p ∈ file.parts, Stands file.path p n := by
  obtain ⟨r', ran, nodes, _⟩ := file.bind_eq h.tracks fingerprint
  have new := (file.newIn_draft (List.mem_singleton_self file) (r.toList.map Node.id)).new
  rw [ran] at member
  replace member : n ∈ r'.toList := member
  rw [nodes] at member
  refine (mem_of_mem_upsertAll member).imp_right fun added => ?_
  obtain ⟨_, p, ⟨_, same, rfl, inside⟩, stands⟩ := new.origin_of_mem added
  rw [List.mem_singleton.mp same] at inside stands
  exact ⟨p, inside, stands⟩

/-- Every node stands for a part of one of the files. -/
theorem Tidy.stands_bindAll {r : Registry} (h : Tidy r)
    (member : n ∈ (DesignMetrics.bindAll r files).2.toList)
    : n ∈ r.toList ∨ ∃ path p, Sourced (files.map Prod.fst) path p ∧ Stands path p n := by
  induction files generalizing r with
  | nil => exact .inl member
  | cons pair rest ih =>
    rcases ih (h.bind pair.1 pair.2) member with before | ⟨path, p, ⟨file, there, at_p⟩, stands⟩
    · refine (h.stands_bind before).imp_right fun ⟨p, inside, stands⟩ => ?_
      exact ⟨pair.1.path, p, ⟨pair.1, by simp, rfl, inside⟩, stands⟩
    · exact .inr ⟨path, p, ⟨file, List.mem_cons_of_mem _ there, at_p⟩, stands⟩

theorem stands_of_mem_bindAll (member : n ∈ (bindAll ∅ files).2.toList)
    : ∃ path p, Sourced (files.map Prod.fst) path p ∧ Stands path p n :=
  (Tidy.empty.stands_bindAll member).resolve_left (by simp)

end DesignMetrics
