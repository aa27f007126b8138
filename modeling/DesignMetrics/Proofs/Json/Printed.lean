import Mathlib.Data.List.Forall2
import Mathlib.Data.Option.Basic
import DesignMetrics.Proofs.Json.Lexing

/-! What is read back of a printed value.
It is the value that was written except for parts that cannot be made out: numbers that no word can
hold, and what is nested too deeply.
-/

namespace DesignMetrics.Json

theorem digits_of_isDigit {cs : List Char} (h : ∀ c ∈ cs, c.isDigit)
    : Numeral.digits cs = (cs.filterMap Numeral.digit?, []) := by
  have taken : (cs ++ []).takeWhile Char.isDigit = cs ++ [].takeWhile Char.isDigit :=
    List.takeWhile_append_of_pos h
  have dropped : (cs ++ []).dropWhile Char.isDigit = [].dropWhile Char.isDigit :=
    List.dropWhile_append_of_pos h
  simp only [List.append_nil, List.takeWhile_nil, List.dropWhile_nil] at taken dropped
  rw [Numeral.digits, taken, dropped]

theorem value_digits {cs : List Char} (h : ∀ c ∈ cs, c.isDigit) (start : Nat)
    : (cs.filterMap Numeral.digit?).foldl (fun n d => n * 10 + d) start
      = Nat.ofDigitChars 10 cs start := by
  induction cs generalizing start with
  | nil => rfl
  | cons c cs ih =>
    have digit : Numeral.digit? c = some (c.toNat - '0'.toNat) := by
      simp [Numeral.digit?, h c]
    rw [List.filterMap_cons_some digit, List.foldl_cons, Nat.ofDigitChars_cons,
      ih fun d member => h d (List.mem_cons_of_mem _ member), Nat.mul_comm start]

/-- The digits of a number spell it. -/
theorem value_toDigits (n : Nat)
    : Numeral.value ((Nat.toDigits 10 n).filterMap Numeral.digit?) = n := by
  rw [Numeral.value, value_digits fun c => Nat.isDigit_of_mem_toDigits (by decide) (by decide),
    Nat.ofDigitChars_ten_toDigits]

/-- Only zero starts with zero. -/
theorem head?_toDigits {n : Nat} (h : 0 < n) : ∃ d, 0 < d ∧ d < 10
    ∧ (Nat.toDigits 10 n).head? = some (Nat.digitChar d) := by
  induction n using Nat.strongRecOn with
  | ind n ih =>
    by_cases small : n < 10
    · exact ⟨n, h, small, by simp [Nat.toDigits_of_lt_base small]⟩
    · obtain ⟨d, pos, bound, first⟩ := ih (n / 10) (by omega) (by omega)
      refine ⟨d, pos, bound, ?_⟩
      rw [Nat.toDigits_of_base_le (by decide) (by omega), List.head?_append, first]
      rfl

/-- The digits of a number are read as a numeral without fraction and exponent. -/
theorem read?_toDigits (n : Nat)
    : Numeral.read? (Nat.toDigits 10 n)
      = some ⟨false, (Nat.toDigits 10 n).filterMap Numeral.digit?, [], none⟩ := by
  have digits := digits_of_isDigit fun c =>
    Nat.isDigit_of_mem_toDigits (n := n) (b := 10) (by decide) (by decide)
  have unsigned : ∀ rest, Nat.toDigits 10 n ≠ '-' :: rest := by
    intro rest same
    have digit : '-'.isDigit := Nat.isDigit_of_mem_toDigits (n := n) (b := 10) (by decide) (by decide)
      (by simp [same])
    contradiction
  have proper : (Nat.toDigits 10 n).filterMap Numeral.digit? = [0]
      ∨ ((Nat.toDigits 10 n).filterMap Numeral.digit? ≠ []
        ∧ ((Nat.toDigits 10 n).filterMap Numeral.digit?).head? ≠ some 0) := by
    by_cases zero : n = 0
    · subst zero
      exact .inl rfl
    · obtain ⟨d, pos, bound, first⟩ := head?_toDigits (n := n) (by omega)
      obtain ⟨rest, same⟩ := List.head?_eq_some_iff.mp first
      have known : Numeral.digit? (Nat.digitChar d) = some d := by
        have all : ∀ d < 10, Numeral.digit? (Nat.digitChar d) = some d := by decide
        exact all d bound
      rw [same, List.filterMap_cons_some known]
      exact .inr ⟨by simp, by simp; omega⟩
  unfold Numeral.read?
  split
  rename_i negative cs sign
  split at sign
  · rename_i same
    exact absurd same (unsigned _)
  · cases sign
    generalize (Nat.toDigits 10 n).filterMap Numeral.digit? = whole at digits proper ⊢
    rw [digits]
    dsimp only
    rw [guard, if_pos proper]
    rfl

mutual

def isMadeOf (fits : Nat → Bool) : Json → Bool
  | .null | .bool _ | .string _ => true
  | .integer i => 0 ≤ i && fits i.toNat
  | .array items => areMadeOf fits items
  | .object fields => fieldsMadeOf fits fields
  | .decimal _ | .broken => false

def areMadeOf (fits : Nat → Bool) : List Json → Bool
  | [] => true
  | j :: rest => j.isMadeOf fits && areMadeOf fits rest

def fieldsMadeOf (fits : Nat → Bool) : List (String × Json) → Bool
  | [] => true
  | (_, j) :: rest => j.isMadeOf fits && fieldsMadeOf fits rest

end

mutual

variable {fits : Nat → Bool}

/-- What is made of such parts is not broken anywhere. -/
theorem isSound_of_isMadeOf : ∀ j : Json, j.isMadeOf fits → j.isSound
  | .array items, h => areSound_of_areMadeOf items h
  | .object fields, h => fieldsSound_of_fieldsMadeOf fields h
  | .null, _ | .bool _, _ | .integer _, _ | .decimal _, _ | .string _, _ => rfl

theorem areSound_of_areMadeOf : ∀ items, areMadeOf fits items → areSound items
  | [], _ => rfl
  | j :: rest, h => by
    rw [areMadeOf, Bool.and_eq_true] at h
    rw [areSound, isSound_of_isMadeOf j h.1, areSound_of_areMadeOf rest h.2]
    rfl

theorem fieldsSound_of_fieldsMadeOf
    : ∀ fields, fieldsMadeOf fits fields → fieldsSound fields
  | [], _ => rfl
  | (_, j) :: rest, h => by
    rw [fieldsMadeOf, Bool.and_eq_true] at h
    rw [fieldsSound, isSound_of_isMadeOf j h.1, fieldsSound_of_fieldsMadeOf rest h.2]
    rfl

end

def isNatural : Json → Bool := isMadeOf fun _ => true

def isDiscrete : Json → Bool := isMadeOf fun n => n ≤ Numeral.wordMax

/-- Whether the second value is the first one except for parts that cannot be made out. -/
inductive Dimmed : Json → Json → Prop
  | broken (j : Json) : Dimmed j .broken
  | rounded (i : Int) (x : Float) : Dimmed (.integer i) (.decimal x)
  | null : Dimmed .null .null
  | bool (b : Bool) : Dimmed (.bool b) (.bool b)
  | integer (i : Int) : Dimmed (.integer i) (.integer i)
  | string (s : String) : Dimmed (.string s) (.string s)
  | array {items items' : List Json} (each : List.Forall₂ Dimmed items items')
    : Dimmed (.array items) (.array items')
  | object {fields fields' : List (String × Json)}
      (keys : fields'.map Prod.fst = fields.map Prod.fst)
      (each : List.Forall₂ Dimmed (fields.map Prod.snd) (fields'.map Prod.snd))
    : Dimmed (.object fields) (.object fields')

mutual

/-- Cutting a value leaves parts of it that cannot be made out. -/
theorem Dimmed.cut {j : Json} (limit : Nat) : ∀ {j' : Json}, Dimmed j j' → Dimmed j (j'.cut limit)
  | .array items', h => by
    cases h with
    | array each =>
      cases limit with
      | zero => exact .broken _
      | succ n => exact .array (Dimmed.cutItems n each)
  | .object fields', h => by
    cases h with
    | object keys each =>
      cases limit with
      | zero => exact .broken _
      | succ n =>
        have cut := Dimmed.cutFields n each
        exact .object (cut.1.trans keys) cut.2
  | .null, h | .bool _, h | .integer _, h | .decimal _, h | .string _, h | .broken, h => by
    simpa only [Json.cut] using h

theorem Dimmed.cutItems (limit : Nat)
    : ∀ {items items' : List Json}, List.Forall₂ Dimmed items items'
      → List.Forall₂ Dimmed items (Json.cutItems limit items')
  | _, [], h => h
  | _, j' :: rest, h => by
    cases h with
    | cons first others => exact .cons (first.cut limit) (Dimmed.cutItems limit others)

theorem Dimmed.cutFields (limit : Nat)
    : ∀ {values : List Json} {fields' : List (String × Json)},
      List.Forall₂ Dimmed values (fields'.map Prod.snd)
      → (Json.cutFields limit fields').map Prod.fst = fields'.map Prod.fst
        ∧ List.Forall₂ Dimmed values ((Json.cutFields limit fields').map Prod.snd)
  | _, [], h => ⟨rfl, h⟩
  | _, (k, j') :: rest, h => by
    cases h with
    | cons first others =>
      have cut := Dimmed.cutFields limit others
      exact ⟨by simp [Json.cutFields, cut.1], .cons (first.cut limit) cut.2⟩

end

mutual

/-- What is cut is not nested too deeply. -/
theorem depth_cut_le (limit : Nat) : ∀ j : Json, (j.cut limit).depth ≤ limit
  | .array items => by
    cases limit with
    | zero => exact Nat.le_refl 0
    | succ n => exact Nat.succ_le_succ (depth_cutItems_le n items)
  | .object fields => by
    cases limit with
    | zero => exact Nat.le_refl 0
    | succ n => exact Nat.succ_le_succ (depth_cutFields_le n fields)
  | .null | .bool _ | .integer _ | .decimal _ | .string _ | .broken => by simp [cut, depth]

theorem depth_cutItems_le (limit : Nat) : ∀ items, depthOfItems (cutItems limit items) ≤ limit
  | [] => by simp [cutItems, depthOfItems]
  | j :: rest => Nat.max_le.mpr ⟨depth_cut_le limit j, depth_cutItems_le limit rest⟩

theorem depth_cutFields_le (limit : Nat) : ∀ fields, depthOfFields (cutFields limit fields) ≤ limit
  | [] => by simp [cutFields, depthOfFields]
  | (_, j) :: rest => Nat.max_le.mpr ⟨depth_cut_le limit j, depth_cutFields_le limit rest⟩

end

mutual

/-- What is not nested too deeply is not cut. -/
theorem cut_eq_self (limit : Nat) : ∀ j : Json, j.depth ≤ limit → j.cut limit = j
  | .array items, h => by
    cases limit with
    | zero => simp [depth] at h
    | succ n => exact congrArg _ (cutItems_eq_self n items (Nat.le_of_succ_le_succ h))
  | .object fields, h => by
    cases limit with
    | zero => simp [depth] at h
    | succ n => exact congrArg _ (cutFields_eq_self n fields (Nat.le_of_succ_le_succ h))
  | .null, _ | .bool _, _ | .integer _, _ | .decimal _, _ | .string _, _ | .broken, _ => by
    simp [cut]

theorem cutItems_eq_self (limit : Nat)
    : ∀ items, depthOfItems items ≤ limit → cutItems limit items = items
  | [], _ => rfl
  | j :: rest, h => by
    have both := Nat.max_le.mp h
    rw [cutItems, cut_eq_self limit j both.1, cutItems_eq_self limit rest both.2]

theorem cutFields_eq_self (limit : Nat)
    : ∀ fields, depthOfFields fields ≤ limit → cutFields limit fields = fields
  | [], _ => rfl
  | (_, j) :: rest, h => by
    have both := Nat.max_le.mp h
    rw [cutFields, cut_eq_self limit j both.1, cutFields_eq_self limit rest both.2]

end

variable {tokens : List Token} {others : List Token}

namespace Lexer

theorem Spells.append {text more : List Char} (left : Spells text tokens) (right : Spells more others)
    (ends : ∀ rest, Ends (utf8 more ++ rest))
    : Spells (text ++ more) (tokens ++ others) := by
  intro done rest next
  rw [utf8_append, List.append_assoc, left done _ (ends rest), right _ rest next,
    List.reverse_append, List.append_assoc]

variable {c : Char} {token : Token}

/-- A character of punctuation before a value. -/
theorem Spells.cons {text : List Char} (h : Goes .between [c] .between [token])
    (rest : Spells text tokens)
    : Spells (c :: text) (token :: tokens) := by
  intro done bytes next
  have first := h done (utf8 text ++ bytes)
  rw [← List.append_assoc, ← utf8_append, List.singleton_append] at first
  rw [first, rest _ bytes next]
  simp

/-- The machine between values. -/
theorem goes_mark (h : c.toNat < 0x80) (one : begin c = some (.between, [token]))
    : Goes .between [c] .between [token] := by
  refine .char h ?_
  simp only [step, ofNat_toUInt8 h, one]

theorem spells_mark (h : c.toNat < 0x80) (one : begin c = some (.between, [token]))
    : Spells [c] [token] :=
  (goes_mark h one).spells

/-- A comma or a closing bracket ends words and numbers. -/
theorem ends_cons (h : c.toNat < 0x80) (numeric : isNumeric c = false) (alpha : c.isAlpha = false)
    (text : List Char) (rest : List UInt8)
    : Ends (utf8 (c :: text) ++ rest) := by
  intro b first
  rw [utf8_cons, utf8EncodeChar_of_ascii h] at first
  obtain rfl : c.toNat.toUInt8 = b := by simpa using first
  rw [ofNat_toUInt8 h]
  exact ⟨numeric, alpha⟩

end Lexer

variable {j : Json}

namespace Stack

def Builds (tokens : List Token) (j : Json) : Prop :=
  ∀ frames need rest, need = .value ∨ need = .valueOrEnd
    → pushAll ⟨frames, need, .null⟩ (tokens ++ rest) = pushAll (put frames j) rest

def BuildsItems (tokens : List Token) (items : List Json) : Prop :=
  ∀ before frames need rest, need = .value ∨ need = .valueOrEnd
    → pushAll ⟨.array before :: frames, need, .null⟩ (tokens ++ rest)
      = pushAll ⟨.array (items.reverse ++ before) :: frames, .commaOrEnd, .null⟩ rest

def BuildsFields (tokens : List Token) (fields : List (String × Json)) : Prop :=
  ∀ before frames need rest, need = .key ∨ need = .keyOrEnd
    → pushAll ⟨.object before false none :: frames, need, .null⟩ (tokens ++ rest)
      = pushAll ⟨.object (fields.reverse ++ before) false none :: frames, .commaOrEnd, .null⟩ rest

theorem builds_scalar (j : Json) : Builds [.scalar j] j := by
  rintro frames need rest (rfl | rfl) <;> rfl

theorem builds_text (s : String) : Builds [.text (some s)] (.string s) := by
  rintro frames need rest (rfl | rfl) <;> rfl

theorem builds_empty_array : Builds [.openArray, .closeArray] (.array []) := by
  rintro frames need rest (rfl | rfl) <;> rfl

theorem builds_empty_object : Builds [.openObject, .closeObject] (.object []) := by
  rintro frames need rest (rfl | rfl) <;> rfl

theorem BuildsItems.array {items : List Json} (h : BuildsItems tokens items)
    : Builds (.openArray :: (tokens ++ [.closeArray])) (.array items) := by
  rintro frames need rest (rfl | rfl) <;>
    · have inner := h [] frames .valueOrEnd (.closeArray :: rest) (.inr rfl)
      simp only [List.cons_append, List.append_assoc, List.nil_append, pushAll, push]
      rw [inner]
      simp [pushAll, push, close]

theorem BuildsFields.object {fields : List (String × Json)} (h : BuildsFields tokens fields)
    : Builds (.openObject :: (tokens ++ [.closeObject])) (.object fields) := by
  rintro frames need rest (rfl | rfl) <;>
    · have inner := h [] frames .keyOrEnd (.closeObject :: rest) (.inr rfl)
      simp only [List.cons_append, List.append_assoc, List.nil_append, pushAll, push]
      rw [inner]
      simp [pushAll, push, close]

theorem Builds.item (h : Builds tokens j) : BuildsItems tokens [j] :=
  fun before frames need rest next => h (.array before :: frames) need rest next

theorem Builds.items {tokens : List Token} {j : Json} {items : List Json} (first : Builds tokens j)
    (next : BuildsItems others items)
    : BuildsItems (tokens ++ .comma :: others) (j :: items) := by
  intro before frames need rest value
  rw [List.append_assoc, first _ need _ value]
  have later := next (j :: before) frames .value rest (.inl rfl)
  simp only [put, List.cons_append, pushAll, push]
  rw [later]
  simp

theorem Builds.field (h : Builds tokens j) (k : String)
    : BuildsFields (.text (some k) :: .colon :: tokens) [(k, j)] := by
  rintro before frames need rest (rfl | rfl) <;>
    exact h (.object before false (some k) :: frames) .value rest (.inl rfl)

theorem Builds.fields {tokens : List Token} {j : Json} {fields : List (String × Json)}
    (first : Builds tokens j) (k : String) (next : BuildsFields others fields)
    : BuildsFields (.text (some k) :: .colon :: (tokens ++ .comma :: others)) ((k, j) :: fields) := by
  intro before frames need rest key
  have one := first.field k before frames need (.comma :: (others ++ rest)) key
  have later := next ((k, j) :: before) frames .key rest (.inl rfl)
  simp only [List.cons_append, List.append_assoc] at one ⊢
  rw [one]
  simp only [pushAll, push, List.reverse_cons, List.reverse_nil, List.nil_append, List.cons_append]
  rw [later]
  simp

end Stack

open Lexer Stack

def ReadAs (fits : Nat → Bool) (j j' : Json) : Prop :=
  Dimmed j j' ∧ ((∀ n, fits n → n ≤ Numeral.wordMax) → j' = j)

section

variable {fits : Nat → Bool}

theorem ReadAs.same (h : Dimmed j j) : ReadAs fits j j := ⟨h, fun _ => rfl⟩

theorem ReadAs.eq_of_words {items items' : List Json} (words : ∀ n, fits n → n ≤ Numeral.wordMax)
    (each : List.Forall₂ (ReadAs fits) items items') : items' = items := by
  induction each with
  | nil => rfl
  | cons first _ ih => rw [first.2 words, ih]

theorem ReadAs.array {items items' : List Json} (each : List.Forall₂ (ReadAs fits) items items')
    : ReadAs fits (.array items) (.array items') :=
  ⟨.array (each.imp fun _ _ h => h.1), fun words => congrArg Json.array (eq_of_words words each)⟩

theorem ReadAs.object {fields fields' : List (String × Json)}
    (keys : fields'.map Prod.fst = fields.map Prod.fst)
    (each : List.Forall₂ (ReadAs fits) (fields.map Prod.snd) (fields'.map Prod.snd))
    : ReadAs fits (.object fields) (.object fields') := by
  refine ⟨.object keys (each.imp fun _ _ h => h.1), fun words => congrArg Json.object ?_⟩
  rw [List.zip_of_prod keys (eq_of_words words each), ← List.zip_of_prod rfl rfl]

/-- A natural number is read back, or as something that is no integer if it is no word. -/
theorem readAs_toDigits {n : Nat} (h : fits n)
    : ReadAs fits (.integer n)
        (Numeral.toJson ⟨false, (Nat.toDigits 10 n).filterMap Numeral.digit?, [], none⟩) := by
  simp only [Numeral.toJson, value_toDigits, List.isEmpty_nil, Option.isNone_none,
    Bool.false_eq_true, not_false_eq_true, true_and, false_and, if_false]
  split
  · exact .same (.integer n)
  · rename_i wide
    refine ⟨?_, fun words => absurd (words n h) wide⟩
    split
    · exact .rounded _ _
    · exact .broken _

theorem spells_nat {n : Nat} (h : fits n)
    : ∃ j, Spells (Nat.toDigits 10 n) [.scalar j] ∧ ReadAs fits (.integer n) j := by
  refine ⟨_, spells_digits Nat.toDigits_ne_nil
    (fun c => Nat.isDigit_of_mem_toDigits (by decide) (by decide)) ?_, readAs_toDigits h⟩
  rw [numberToken?, List.reverse_reverse, read?_toDigits]
  rfl

mutual

/-- The text of a value is read back, up to what cannot be made out. -/
theorem exists_tokens
    : ∀ j : Json, j.isMadeOf fits → ∃ tokens j', Spells j.compact.toList tokens ∧ Builds tokens j'
      ∧ ReadAs fits j j'
  | .null, _ => ⟨_, _, spells_null, builds_scalar _, .same .null⟩
  | .bool true, _ => ⟨_, _, spells_true, builds_scalar _, .same (.bool _)⟩
  | .bool false, _ => ⟨_, _, spells_false, builds_scalar _, .same (.bool _)⟩
  | .string s, _ => ⟨_, _, (goes_quote s).spells, builds_text s, .same (.string s)⟩
  | .integer i, h => by
    obtain ⟨natural, small⟩ : 0 ≤ i ∧ fits i.toNat := by simpa [isMadeOf] using h
    obtain ⟨n, rfl⟩ := Int.eq_ofNat_of_zero_le natural
    obtain ⟨j, spells, readAs⟩ := spells_nat (by simpa using small)
    refine ⟨_, j, ?_, builds_scalar j, readAs⟩
    have text : (Json.integer n).compact.toList = Nat.toDigits 10 n := by
      simp [compact, scalar, Int.not_ofNat_neg]
    rw [text]
    exact spells
  | .array [], _ =>
    ⟨_, _, .cons (goes_mark (by decide) rfl) (spells_mark (by decide) rfl), builds_empty_array,
      .array .nil⟩
  | .object [], _ =>
    ⟨_, _, .cons (goes_mark (by decide) rfl) (spells_mark (by decide) rfl), builds_empty_object,
      .object rfl .nil⟩
  | .array (j :: rest), h => by
    obtain ⟨tokens, items', spells, builds, readAs⟩ := exists_itemTokens (j :: rest) (by simp) h
    refine ⟨_, .array items', ?_, builds.array, .array readAs⟩
    have closing : Spells [']'] [.closeArray] := spells_mark (by decide) rfl
    have text : (Json.array (j :: rest)).compact.toList
        = '[' :: ((compactItems (j :: rest)).toList ++ [']']) := by
      simp [compact]
    rw [text]
    exact .cons (goes_mark (by decide) rfl)
      (spells.append closing (ends_cons (by decide) (by decide) (by decide) []))
  | .object ((k, j) :: rest), h => by
    obtain ⟨tokens, fields', spells, builds, keys, readAs⟩ :=
      exists_fieldTokens ((k, j) :: rest) (by simp) h
    refine ⟨_, .object fields', ?_, builds.object, .object keys readAs⟩
    have closing : Spells ['\x7d'] [.closeObject] := spells_mark (by decide) rfl
    have text : (Json.object ((k, j) :: rest)).compact.toList
        = '\x7b' :: ((compactFields ((k, j) :: rest)).toList ++ ['\x7d']) := by
      simp [compact]
    rw [text]
    exact .cons (goes_mark (by decide) rfl)
      (spells.append closing (ends_cons (by decide) (by decide) (by decide) []))

theorem exists_itemTokens
    : ∀ items : List Json, items ≠ [] → areMadeOf fits items → ∃ tokens items',
      Spells (compactItems items).toList tokens ∧ BuildsItems tokens items'
      ∧ List.Forall₂ (ReadAs fits) items items'
  | [], some_item, _ => absurd rfl some_item
  | [j], _, h => by
    obtain ⟨tokens, j', spells, builds, readAs⟩ := exists_tokens j (by simpa [areMadeOf] using h)
    exact ⟨tokens, [j'], spells, builds.item, .cons readAs .nil⟩
  | j :: k :: rest, _, h => by
    have both : j.isMadeOf fits ∧ areMadeOf fits (k :: rest) := by simpa [areMadeOf] using h
    obtain ⟨tokens, j', spells, builds, readAs⟩ := exists_tokens j both.1
    obtain ⟨others, items', spells', builds', readAs'⟩ := exists_itemTokens (k :: rest) (by simp) both.2
    refine ⟨_, j' :: items', ?_, builds.items builds', .cons readAs readAs'⟩
    have text : (compactItems (j :: k :: rest)).toList
        = j.compact.toList ++ ',' :: (compactItems (k :: rest)).toList := by
      simp [compactItems]
    rw [text]
    exact spells.append (.cons (goes_mark (by decide) rfl) spells')
      (ends_cons (by decide) (by decide) (by decide) _)

theorem exists_fieldTokens
    : ∀ fields : List (String × Json), fields ≠ [] → fieldsMadeOf fits fields → ∃ tokens fields',
      Spells (compactFields fields).toList tokens ∧ BuildsFields tokens fields'
      ∧ fields'.map Prod.fst = fields.map Prod.fst
      ∧ List.Forall₂ (ReadAs fits) (fields.map Prod.snd) (fields'.map Prod.snd)
  | [], some_field, _ => absurd rfl some_field
  | [(k, j)], _, h => by
    obtain ⟨tokens, j', spells, builds, readAs⟩ := exists_tokens j (by simpa [fieldsMadeOf] using h)
    refine ⟨_, [(k, j')], ?_, builds.field k, rfl, .cons readAs .nil⟩
    have text : (compactFields [(k, j)]).toList = (quote k).toList ++ ':' :: j.compact.toList := by
      simp [compactFields]
    rw [text]
    exact (goes_quote k).spells.append (.cons (goes_mark (by decide) rfl) spells)
      (ends_cons (by decide) (by decide) (by decide) _)
  | (k, j) :: (k', i) :: rest, _, h => by
    have both : j.isMadeOf fits ∧ fieldsMadeOf fits ((k', i) :: rest) := by
      simpa [fieldsMadeOf] using h
    obtain ⟨tokens, j', spells, builds, readAs⟩ := exists_tokens j both.1
    obtain ⟨others, fields', spells', builds', keys, readAs'⟩ :=
      exists_fieldTokens ((k', i) :: rest) (by simp) both.2
    refine ⟨_, (k, j') :: fields', ?_, builds.fields k builds', by simp [keys], .cons readAs readAs'⟩
    have text : (compactFields ((k, j) :: (k', i) :: rest)).toList
        = (quote k).toList ++ ':' :: (j.compact.toList
          ++ ',' :: (compactFields ((k', i) :: rest)).toList) := by
      simp [compactFields]
    rw [text]
    exact (goes_quote k).spells.append (.cons (goes_mark (by decide) rfl)
      (spells.append (.cons (goes_mark (by decide) rfl) spells')
        (ends_cons (by decide) (by decide) (by decide) _)))
      (ends_cons (by decide) (by decide) (by decide) _)

end

/-- A printed value can be parsed. -/
theorem parse?_compact (h : j.isMadeOf fits)
    : ∃ j', parse? j.compact.toUTF8.data.toList = some j' ∧ ReadAs fits j j' := by
  obtain ⟨tokens, j', spells, builds, readAs⟩ := exists_tokens j h
  have lexed : tokens? (utf8 j.compact.toList) = some tokens := by
    have all := spells [] [] (by simp [Ends])
    rw [List.append_nil] at all
    rw [tokens?, all]
    simp [run, finish]
  have built := builds [] .value [] (.inl rfl)
  refine ⟨j', ?_, readAs⟩
  rw [List.append_nil] at built
  rw [toUTF8_toList, parse?, lexed]
  simp only [Option.bind_eq_bind, Option.bind_some, Stack.start]
  rw [built]
  rfl

end

/-- What is stored as text can be parsed and is the same up to what cannot be made out. -/
theorem exists_parseStored? (h : j.isNatural)
    : ∃ j', parseStored? j.compact.toUTF8 = some j' ∧ Dimmed j j' := by
  obtain ⟨j', parsed, readAs⟩ := parse?_compact h
  exact ⟨j'.cut nestingLimit, by rw [parseStored?, parsed]; rfl, readAs.1.cut nestingLimit⟩

/-- A printed value is parsed to itself, if its numbers are words. -/
theorem parse?_discrete (h : j.isDiscrete)
    : parse? j.compact.toUTF8.data.toList = some j ∧ Dimmed j j := by
  obtain ⟨j', parsed, readAs⟩ := parse?_compact h
  obtain rfl : j' = j := readAs.2 fun n small => by simpa using small
  exact ⟨parsed, readAs.1⟩

/-- What is stored as text is the same down to the greatest depth, if its numbers are words. -/
theorem parseStored?_compact (h : j.isDiscrete)
    : parseStored? j.compact.toUTF8 = some (j.cut nestingLimit) ∧ Dimmed j (j.cut nestingLimit) := by
  obtain ⟨parsed, dimmed⟩ := parse?_discrete h
  refine ⟨?_, dimmed.cut nestingLimit⟩
  rw [parseStored?, parsed]
  rfl

end DesignMetrics.Json
