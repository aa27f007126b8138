import DesignMetrics.Json.Decode
import DesignMetrics.Proofs.Json.Printed
import DesignMetrics.Syntax.Fingerprint

/-! Readers that find what was written.
Finding what was written, or nothing at all, is closed under lists, options, records and choices, so it
is shown for a type as soon as it is shown for the types of its parts.
-/

namespace DesignMetrics.Json

variable {α β : Type}

/-- Whether `a` is read if it is whole and there is enough to read from, and nothing otherwise. -/
structure ReadsBack (a : α) (whole enough : Prop) (read : Option α) : Prop where
  only : ∀ b, read = some b → b = a ∧ whole
  found : whole → enough → read = some a

namespace ReadsBack

variable {a : α} {b : β} {whole whole' enough enough' : Prop}

theorem same (a : α) : ReadsBack a True True (some a) :=
  ⟨fun _ found => ⟨(Option.some.inj found).symm, trivial⟩, fun _ _ => rfl⟩

theorem nothing (a : α) (h : whole → ¬ enough) : ReadsBack a whole enough none where
  only _ found := by simp at found
  found one two := absurd two (h one)

variable {read : Option α}

/-- What is read does not depend on how it is said that all is there. -/
theorem imp (h : ReadsBack a whole enough read) (one : whole → whole') (two : whole' → whole)
    (three : whole' → enough' → enough) : ReadsBack a whole' enough' read where
  only b found := ⟨(h.only b found).1, one (h.only b found).2⟩
  found all more := h.found (two all) (three all more)

/-- One reading after the other. -/
theorem bind {next : α → Option β} (first : ReadsBack a whole enough read)
    (second : ReadsBack b whole' enough' (next a))
    : ReadsBack b (whole ∧ whole') (enough ∧ enough') (read >>= next) where
  only c found := by
    obtain ⟨x, one, rest⟩ := Option.bind_eq_some_iff.mp found
    obtain ⟨rfl, here⟩ := first.only x one
    obtain ⟨same, later⟩ := second.only c rest
    exact ⟨same, here, later⟩
  found all more := by
    rw [first.found all.1 more.1]
    exact second.found all.2 more.2

theorem map (h : ReadsBack a whole enough read) (f : α → β)
    : ReadsBack (f a) whole enough (read.map f) where
  only c found := by
    obtain ⟨x, one, rfl⟩ := Option.map_eq_some_iff.mp found
    obtain ⟨rfl, all⟩ := h.only x one
    exact ⟨rfl, all⟩
  found all more := by rw [h.found all more, Option.map_some]

/-- A test that whole values pass. -/
theorem guarded {test : Bool} {next : Unit → Option α} (passes : whole → test)
    (h : ReadsBack a whole enough (next ())) : ReadsBack a whole enough (guard test >>= next) := by
  cases test with
  | true => exact h
  | false => exact .nothing a fun all => absurd (passes all) Bool.false_ne_true

/-- A reading that is only given another form. -/
theorem wrap (h : ReadsBack a whole enough read) (f : α → β)
    : ReadsBack (f a) whole enough (do return f (← read)) :=
  (h.bind (same (f a))).imp And.left (⟨·, trivial⟩) fun _ more => ⟨more, trivial⟩

end ReadsBack

/-- Whether a reader finds what was written, of values that are not nested more than `levels` deep. -/
structure Recovers (write : α → Json) (read : Reads α) (levels : Nat) : Prop where
  reading : ∀ {a : α} {j : Json}, Dimmed (write a) j
    → ReadsBack a (j = write a) ((write a).depth ≤ levels) (read j)
  broken : read .broken = none

variable {levels : Nat}

theorem recovers_string : Recovers .string string? levels where
  reading dimmed := by
    cases dimmed with
    | broken => exact .nothing _ (by simp)
    | string => exact (ReadsBack.same _).imp (fun _ => rfl) (fun _ => trivial) fun _ _ => trivial
  broken := rfl

theorem recovers_bool : Recovers .bool bool? levels where
  reading dimmed := by
    cases dimmed with
    | broken => exact .nothing _ (by simp)
    | bool => exact (ReadsBack.same _).imp (fun _ => rfl) (fun _ => trivial) fun _ _ => trivial
  broken := rfl

variable {j : Json}

/-- A natural number is found if it is not too large. -/
theorem reading_natBelow {bound n : Nat} (dimmed : Dimmed (ofNat n) j)
    : ReadsBack n (j = ofNat n) (n < bound) (natBelow? bound j) := by
  cases dimmed with
  | broken | rounded => exact .nothing _ (by simp [ofNat])
  | integer =>
    rw [natBelow?]
    split
    · exact (ReadsBack.same _).imp (fun _ => rfl) (fun _ => trivial) fun _ _ => trivial
    · rename_i wide
      exact .nothing _ (by omega)

theorem recovers_word : Recovers ofWord word? levels where
  reading {n j} dimmed := by
    have number : ReadsBack n.toNat (j = ofWord n) (n.toNat < 2 ^ 64) (nat? j) :=
      reading_natBelow dimmed
    have read := number.map Nat.toUInt64
    have same : n.toNat.toUInt64 = n := by simp
    rw [same] at read
    exact read.imp id id fun _ _ => n.toNat_lt
  broken := rfl

variable {write : α → Json}

/-- The items of a list are read one by one. -/
theorem ReadsBack.list {view : α → β} {read : Reads β} (each : ∀ {a j}, Dimmed (write a) j
      → ReadsBack (view a) (j = write a) ((write a).depth ≤ levels) (read j)) {as : List α} {j : Json}
    (dimmed : Dimmed (ofList write as) j)
    : ReadsBack (as.map view) (j = ofList write as) ((ofList write as).depth ≤ levels) (list? read j) := by
  cases dimmed with
  | broken => exact .nothing _ (by simp [ofList])
  | @array _ items dimmed =>
    have all : ReadsBack (as.map view) (items = as.map write) (depthOfItems (as.map write) ≤ levels)
        (items.mapM read) := by
      induction as generalizing items with
      | nil =>
        cases dimmed
        exact (same _).imp (fun _ => rfl) (fun _ => trivial) fun _ _ => trivial
      | cons a as ih =>
        cases dimmed with
        | @cons _ item _ rest first others =>
          rw [List.mapM_cons]
          have parts : ReadsBack (view a :: as.map view) (item = write a ∧ rest = as.map write ∧ True)
              ((write a).depth ≤ levels ∧ depthOfItems (as.map write) ≤ levels ∧ True)
              (do return (← read item) :: (← rest.mapM read)) :=
            bind (each first) (bind (ih others) (same _))
          refine parts.imp ?_ ?_ ?_
          · rintro ⟨rfl, rfl, _⟩
            rfl
          · intro whole
            rw [List.map_cons, List.cons.injEq] at whole
            exact ⟨whole.1, whole.2, trivial⟩
          · intro _ shallow
            rw [List.map_cons, depthOfItems] at shallow
            exact ⟨by omega, by omega, trivial⟩
    refine all.imp (congrArg Json.array) Json.array.inj fun _ shallow => ?_
    rw [ofList, depth] at shallow
    omega

theorem Recovers.list {read : Reads α} (h : Recovers write read levels)
    : Recovers (ofList write) (list? read) levels where
  reading {as j} dimmed := by
    have each : ReadsBack (as.map id) (j = ofList write as) ((ofList write as).depth ≤ levels)
        (list? read j) := .list h.reading dimmed
    rw [List.map_id] at each
    exact each
  broken := rfl

/-- Only null looks like null. -/
theorem Dimmed.eq_null (h : Dimmed j .null) : j = .null := by
  cases h
  rfl

/-- Null stands for nothing, if nothing else is written as null. -/
theorem Recovers.option {read : Reads α} (h : Recovers write read levels)
    (solid : ∀ a, write a ≠ .null) : Recovers (ofOption write) (optional? read) levels where
  reading {x j} dimmed := by
    cases x with
    | none =>
      cases dimmed with
      | broken =>
        rw [optional?, h.broken]
        · exact .nothing _ (by simp [ofOption])
        · simp
      | null => exact (ReadsBack.same _).imp (fun _ => rfl) (fun _ => trivial) fun _ _ => trivial
    | some a =>
      unfold optional?
      split
      · exact absurd dimmed.eq_null (solid a)
      · exact (h.reading dimmed).map some
  broken := by simp [optional?, h.broken]

def Intact : List Json → List Json → Prop
  | value :: values, written :: rest => value = written ∧ Intact values rest
  | [], [] => True
  | _, _ => False

theorem Intact.eq_of : ∀ {values written : List Json}, Intact values written → values = written
  | [], [], _ => rfl
  | _ :: _, _ :: _, ⟨rfl, rest⟩ => congrArg _ rest.eq_of

theorem Intact.refl (written : List Json) : Intact written written := by
  induction written with
  | nil => trivial
  | cons _ _ ih => exact ⟨rfl, ih⟩

def Shallow (levels : Nat) : List Json → Prop
  | [] => True
  | written :: rest => written.depth ≤ levels ∧ Shallow levels rest

variable {fields : List (String × Json)}

theorem shallow_of_depth (h : depthOfFields fields ≤ levels)
    : Shallow levels (fields.map Prod.snd) := by
  induction fields with
  | nil => trivial
  | cons f rest ih =>
    rw [depthOfFields] at h
    exact ⟨by omega, ih (by omega)⟩

/-- The fields of a record are found in their order. -/
theorem mapM_field? (distinct : (fields.map Prod.fst).Nodup)
    : (fields.map Prod.fst).mapM (field? fields) = some (fields.map fun f => .given f.2) := by
  have one : ∀ f ∈ fields, field? fields f.1 = some (.given f.2) := by
    intro f member
    have only : fields.filter (fun g => g.1 == f.1) = [f] := by
      induction fields with
      | nil => simp at member
      | cons g rest ih =>
        rw [List.map_cons, List.nodup_cons] at distinct
        rcases List.mem_cons.mp member with rfl | later
        · have none : rest.filter (fun h => h.1 == f.1) = [] := by
            rw [List.filter_eq_nil_iff]
            intro h inside same
            exact distinct.1 (eq_of_beq same ▸ List.mem_map_of_mem inside)
          rw [List.filter_cons_of_pos (by simp), none]
        · have apart : ¬ (g.1 == f.1) := fun same =>
            distinct.1 (eq_of_beq same ▸ List.mem_map_of_mem later)
          rw [List.filter_cons, if_neg apart, ih distinct.2 later]
    rw [field?, only]
  have all (rest : List (String × Json)) (sub : rest ⊆ fields)
      : (rest.map Prod.fst).mapM (field? fields) = some (rest.map fun f => .given f.2) := by
    induction rest with
    | nil => rfl
    | cons f rest ih =>
      rw [List.map_cons, List.mapM_cons, one f (sub (by simp)),
        ih fun g member => sub (List.mem_cons_of_mem _ member)]
      rfl
  exact all fields fun _ => id

/-- A record is read field by field. -/
theorem Dimmed.fieldByField {names : List String} {b : β} {enough : Prop}
    {next : List Field → Option β} (h : Dimmed (.object fields) j)
    (keys : fields.map Prod.fst = names) (distinct : names.Nodup)
    (each : ∀ {values}, List.Forall₂ Dimmed (fields.map Prod.snd) values
      → ReadsBack b (Intact values (fields.map Prod.snd)) enough (next (values.map .given)))
    : ReadsBack b (j = .object fields) enough (fields? names j >>= next) := by
  subst keys
  cases h with
  | broken => exact .nothing b (by simp)
  | @object _ fields' keys dimmed =>
    have found : fields? (fields.map Prod.fst) (.object fields')
        = some ((fields'.map Prod.snd).map .given) := by
      rw [fields?, ← keys, mapM_field? (keys ▸ distinct), List.map_map]
      rfl
    rw [found]
    refine (each dimmed).imp (fun intact => ?_) (fun whole => ?_) fun _ more => more
    · rw [List.zip_of_prod keys intact.eq_of, ← List.zip_of_prod rfl rfl]
    · rw [Json.object.inj whole]
      exact .refl _

section

variable {w : Leeway} {names : List String} {b : β} {next : List Field → Option β}
  (h : Dimmed (.object fields) j) (keys : fields.map Prod.fst = names) (distinct : names.Nodup)
  (each : ∀ {values}, List.Forall₂ Dimmed (fields.map Prod.snd) values
    → ReadsBack b (Intact values (fields.map Prod.snd)) (Shallow levels (fields.map Prod.snd))
        (next (values.map .given)))

include h keys distinct each

theorem Dimmed.record
    : ReadsBack b (j = .object fields) ((Json.object fields).depth ≤ levels)
        (fields? names j >>= next) := by
  refine (h.fieldByField keys distinct each).imp id id fun _ shallow => ?_
  rw [depth] at shallow
  exact shallow_of_depth (by omega)

/-- The fields that an alternative holds are read like those of a record. -/
theorem Dimmed.held
    : ReadsBack b (j = .object fields) ((Json.object fields).depth ≤ levels)
        (held? w names j >>= next) := by
  have same : held? w names j = fields? names j := by
    cases h <;> rfl
  rw [same]
  exact h.record keys distinct each

end

@[simp] theorem depth_tagged (name : String) (value : Json)
    : (tagged name value).depth = value.depth + 1 := by
  simp [tagged, depth, depthOfFields]

section

variable {name : String} {value : Json} {b : β} {next : String × Option Json → Option β}
  (h : Dimmed (.tagged name value) j)
  (inner : ∀ {value'}, Dimmed value value'
    → ReadsBack b (value' = value) (value.depth ≤ levels) (next (name, some value')))

include h inner

/-- A choice that holds something is read by its name, and one level deeper. -/
theorem Dimmed.choiceBelow
    : ReadsBack b (j = .tagged name value) ((tagged name value).depth ≤ levels + 1)
        (choice? j >>= next) := by
  cases h with
  | broken => exact .nothing b (by simp [tagged])
  | @object _ fields' keys each =>
    obtain ⟨⟨k, value'⟩, rfl⟩ : ∃ f, fields' = [f] := by
      refine List.length_eq_one_iff.mp ?_
      simpa using congrArg List.length keys
    obtain rfl : k = name := by simpa using keys
    cases each with
    | cons first =>
      refine (inner first).imp (fun whole => ?_) (fun whole => ?_) fun _ shallow => ?_
      · obtain rfl : value' = value := whole
        rfl
      · simpa [tagged] using whole
      · rw [depth_tagged] at shallow
        omega

theorem Dimmed.choice
    : ReadsBack b (j = .tagged name value) ((tagged name value).depth ≤ levels) (choice? j >>= next) :=
  (h.choiceBelow inner).imp id id fun _ shallow => by omega

end

/-- A choice that holds nothing is its name. -/
theorem Dimmed.name {text : String} {b : β} {next : String × Option Json → Option β}
    (h : Dimmed (.string text) j) (known : ReadsBack b True True (next (text, none)))
    : ReadsBack b (j = .string text) ((Json.string text).depth ≤ levels) (choice? j >>= next) := by
  cases h with
  | broken => exact .nothing b (by simp)
  | string => exact known.imp (fun _ => rfl) (fun _ => trivial) fun _ _ => trivial

end DesignMetrics.Json
