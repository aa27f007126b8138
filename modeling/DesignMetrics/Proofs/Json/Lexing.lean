import DesignMetrics.Json.Printer
import DesignMetrics.Json.Reader

/-! How printed values are cut into tokens.
A string is one token whatever its characters are: those that are written as they stand and those that
are escaped both give their bytes. Words and numbers are complete when a byte follows that cannot
belong to them.
-/

namespace DesignMetrics.Json

-- Bytes

def utf8 (cs : List Char) : List UInt8 := cs.flatMap String.utf8EncodeChar

@[simp] theorem utf8_nil : utf8 [] = [] := rfl

@[simp] theorem utf8_append (cs ds : List Char) : utf8 (cs ++ ds) = utf8 cs ++ utf8 ds :=
  List.flatMap_append

@[simp] theorem utf8_cons (c : Char) (cs : List Char)
    : utf8 (c :: cs) = String.utf8EncodeChar c ++ utf8 cs := List.flatMap_cons

theorem toUTF8_toList (s : String) : s.toUTF8.data.toList = utf8 s.toList := by
  rw [String.toUTF8_eq_toByteArray, ← String.utf8Encode_toList]
  simp [List.utf8Encode, utf8]

/-- A text is read back from its bytes. -/
theorem fromUTF8?_utf8 (s : String) : String.fromUTF8? ⟨(utf8 s.toList).toArray⟩ = some s := by
  have bytes : (⟨(utf8 s.toList).toArray⟩ : ByteArray) = s.toByteArray := by
    rw [← toUTF8_toList]
    rfl
  rw [bytes, String.fromUTF8?, dif_pos s.isValidUTF8]
  rfl

variable {c : Char}

/-- A character of the ASCII set is one byte, and this byte is its number. -/
theorem utf8EncodeChar_of_ascii (h : c.toNat < 0x80)
    : String.utf8EncodeChar c = [c.toNat.toUInt8] := by
  have small : c.val.toNat ≤ 127 := Nat.le_of_lt_succ h
  rw [String.utf8EncodeChar, if_pos small]
  rfl

theorem toNat_toUInt8 (h : c.toNat < 0x80) : c.toNat.toUInt8.toNat = c.toNat := by
  simp [Nat.toUInt8]
  omega

theorem ofNat_toUInt8 (h : c.toNat < 0x80) : Char.ofNat c.toNat.toUInt8.toNat = c := by
  rw [toNat_toUInt8 h, Char.ofNat_toNat]

theorem toNat_ofNat {n : Nat} (h : n < 0xd800) : (Char.ofNat n).toNat = n := by
  rw [Char.ofNat, dif_pos (.inl h)]
  rfl

variable {b : UInt8}

/-- Every byte of another character is large. -/
theorem le_of_mem_utf8EncodeChar (h : 0x80 ≤ c.toNat) (member : b ∈ String.utf8EncodeChar c)
    : 0x80 ≤ b.toNat := by
  have large : ¬ c.val.toNat ≤ 127 := Nat.not_le.mpr h
  have byte (n : Nat) (low : 128 ≤ n) (high : n < 256) : 128 ≤ (UInt8.ofNat n).toNat := by
    rw [UInt8.toNat_ofNat', Nat.mod_eq_of_lt high]
    exact low
  unfold String.utf8EncodeChar at member
  simp only [large, if_false] at member
  split at member
  · simp only [List.mem_cons, List.not_mem_nil, or_false] at member
    rcases member with rfl | rfl <;> apply byte <;> omega
  · split at member <;> simp only [List.mem_cons, List.not_mem_nil, or_false] at member
    · rcases member with rfl | rfl | rfl <;> apply byte <;> omega
    · rcases member with rfl | rfl | rfl | rfl <;> apply byte <;> omega

namespace Lexer

-- Steps

variable {tokens : List Token} {mode : Mode} {token : Token}

theorem run_cons {next : Mode} (h : step mode b = some (next, tokens)) (done : List Token)
    (rest : List UInt8)
    : run mode done (b :: rest) = run next (tokens.reverse ++ done) rest := by
  rw [run, h]

def Goes (mode : Mode) (text : List Char) (next : Mode) (tokens : List Token) : Prop :=
  ∀ done rest, run mode done (utf8 text ++ rest) = run next (tokens.reverse ++ done) rest

theorem Goes.refl (mode : Mode) : Goes mode [] mode [] := fun _ _ => rfl

variable {text : List Char}

theorem Goes.append {first second third : Mode} {more : List Char} {others : List Token}
    (left : Goes first text second tokens) (right : Goes second more third others)
    : Goes first (text ++ more) third (tokens ++ others) := by
  intro done rest
  rw [utf8_append, List.append_assoc, left, right, List.reverse_append, List.append_assoc]

/-- One character of the ASCII set. -/
theorem Goes.char {next : Mode} (h : c.toNat < 0x80)
    (one : step mode c.toNat.toUInt8 = some (next, tokens)) : Goes mode [c] next tokens := by
  intro done rest
  rw [utf8_cons, utf8_nil, List.append_nil, utf8EncodeChar_of_ascii h]
  exact run_cons one done rest

theorem Goes.cons {first second third : Mode} (h : c.toNat < 0x80)
    (one : step first c.toNat.toUInt8 = some (second, [])) (rest : Goes second text third tokens)
    : Goes first (c :: text) third tokens :=
  (Goes.char h one).append rest

-- Strings

/-- A byte that stands for itself in a string. -/
theorem step_inText (plain : 0x20 ≤ b.toNat) (quote : Char.ofNat b.toNat ≠ '"')
    (escape : Char.ofNat b.toNat ≠ '\\') (before : List Piece)
    : step (.inText before) b = some (.inText (.byte b :: before), []) := by
  have visible : ¬ b < 0x20 := by
    rw [UInt8.lt_iff_toNat_lt]
    exact Nat.not_lt.mpr plain
  simp [step, quote, escape, visible]

theorem run_inText {bytes : List UInt8} (plain : ∀ b ∈ bytes, 0x80 ≤ b.toNat) (before : List Piece)
    (done : List Token) (rest : List UInt8)
    : run (.inText before) done (bytes ++ rest)
      = run (.inText ((bytes.map .byte).reverse ++ before)) done rest := by
  induction bytes generalizing before with
  | nil => rfl
  | cons b bytes ih =>
    have large := plain b (by simp)
    have apart (c : Char) (small : c.toNat < 0x80) : Char.ofNat b.toNat ≠ c := by
      rintro rfl
      have bound := b.toNat_lt
      rw [toNat_ofNat (by omega)] at small
      omega
    have one := step_inText (by omega) (apart '"' (by decide)) (apart '\\' (by decide)) before
    rw [List.cons_append, run_cons one, List.reverse_nil, List.nil_append,
      ih fun x member => plain x (List.mem_cons_of_mem _ member)]
    simp

/-- The escape of a control character without a letter of its own. -/
theorem goes_code {n : Nat} (h : n < 0x20) (before : List Piece)
    : Goes (.inText before)
        ['\\', 'u', '0', '0', Digest.hexDigit (n / 16), Digest.hexDigit (n % 16)]
        (.inText (.unit n :: before)) [] := by
  have digit : ∀ d < 16, (Digest.hexDigit d).toNat < 0x80
      ∧ Digest.hexValue? (Char.ofNat (Digest.hexDigit d).toNat.toUInt8.toNat) = some d := by decide
  have high := digit (n / 16) (by omega)
  have low := digit (n % 16) (by omega)
  have whole : n / 16 * 16 + n % 16 = n := by omega
  have third : step (.inCode before 2 0) (Digest.hexDigit (n / 16)).toNat.toUInt8
      = some (.inCode before 3 (n / 16), []) := by
    simp only [step, high.2]
    simp
  have fourth : step (.inCode before 3 (n / 16)) (Digest.hexDigit (n % 16)).toNat.toUInt8
      = some (.inText (.unit n :: before), []) := by
    simp only [step, low.2]
    simp [whole]
  have start : Goes (.inText before) ['\\', 'u', '0', '0'] (.inCode before 2 0) [] :=
    .cons (by decide) rfl (.cons (by decide) rfl (.cons (by decide) rfl (.char (by decide) rfl)))
  exact start.append (.cons high.1 third (.char low.1 fourth))

/-- A character inside a string, however it is written, adds pieces with its bytes. -/
theorem goes_escapeChar (c : Char)
    : ∃ pieces, (∀ before, Goes (.inText before) (escapeChar c) (.inText (pieces.reverse ++ before)) [])
      ∧ ∀ more, pieceBytes (pieces ++ more)
          = (pieceBytes more).map (String.utf8EncodeChar c ++ ·) := by
  have letter {e d : Char} (ascii : e.toNat < 0x80) (unicode : e ≠ 'u')
      (stands : escaped? (Char.ofNat e.toNat.toUInt8.toNat) = some d) (small : d.toNat < 0x80)
      : ∃ pieces, (∀ before, Goes (.inText before) ['\\', e] (.inText (pieces.reverse ++ before)) [])
        ∧ ∀ more, pieceBytes (pieces ++ more)
            = (pieceBytes more).map (String.utf8EncodeChar d ++ ·) := by
    refine ⟨[.byte d.toNat.toUInt8], fun before => ?_, fun more => ?_⟩
    · refine .cons (by decide) rfl (.char ascii ?_)
      simp only [step, stands]
      rw [ofNat_toUInt8 ascii, if_neg unicode]
      rfl
    · rw [utf8EncodeChar_of_ascii small]
      rfl
  unfold escapeChar
  iterate 7
    split
    · rename_i same
      subst same
      exact letter (by decide) (by decide) rfl (by decide)
  split
  · rename_i control
    refine ⟨[.unit c.toNat], goes_code control, fun more => ?_⟩
    have low : ¬ (0xD800 ≤ c.toNat ∧ c.toNat < 0xDC00) := by omega
    have high : ¬ (0xDC00 ≤ c.toNat ∧ c.toNat < 0xE000) := by omega
    rw [List.singleton_append, pieceBytes.eq_def]
    simp only [low, high, if_false, Char.ofNat_toNat]
  · rename_i quote escape _ _ _ _ _ control
    refine ⟨(String.utf8EncodeChar c).map .byte, fun before => ?_, fun more => ?_⟩
    · by_cases ascii : c.toNat < 0x80
      · have same := ofNat_toUInt8 ascii
        rw [utf8EncodeChar_of_ascii ascii]
        refine .char ascii (step_inText ?_ ?_ ?_ before)
        · rw [toNat_toUInt8 ascii]
          omega
        · rw [same]
          exact quote
        · rw [same]
          exact escape
      · intro done rest
        rw [utf8_cons, utf8_nil, List.append_nil]
        exact run_inText (fun b => le_of_mem_utf8EncodeChar (by omega)) before done rest
    · induction String.utf8EncodeChar c with
      | nil => simp
      | cons b bytes ih => simp [pieceBytes, ih, Function.comp_def]

theorem goes_text (cs : List Char)
    : ∃ pieces, (∀ before,
        Goes (.inText before) (cs.flatMap escapeChar) (.inText (pieces.reverse ++ before)) [])
      ∧ pieceBytes pieces = some (utf8 cs) := by
  induction cs with
  | nil => exact ⟨[], fun before => .refl (.inText before), rfl⟩
  | cons c cs ih =>
    obtain ⟨first, goes, bytes⟩ := goes_escapeChar c
    obtain ⟨rest, goes', bytes'⟩ := ih
    refine ⟨first ++ rest, fun before => ?_, ?_⟩
    · rw [List.flatMap_cons, List.reverse_append, List.append_assoc]
      exact (goes before).append (goes' _)
    · rw [bytes, bytes']
      rfl

/-- A quoted text is one token. -/
theorem goes_quote (s : String) : Goes .between (quote s).toList .between [.text (some s)] := by
  obtain ⟨pieces, goes, bytes⟩ := goes_text s.toList
  have text : pieceText? pieces = some s := by
    rw [pieceText?, bytes]
    exact fromUTF8?_utf8 s
  have last : step (.inText pieces.reverse) '"'.toNat.toUInt8 = some (.between, [.text (some s)]) := by
    have close : step (.inText pieces.reverse) '"'.toNat.toUInt8
        = some (.between, [.text (pieceText? pieces.reverse.reverse)]) := rfl
    rw [close, List.reverse_reverse, text]
  have inner := goes []
  rw [List.append_nil] at inner
  rw [quote, String.toList_ofList]
  exact .cons (by decide) rfl (inner.append (.char (by decide) last))

-- Words and numbers

def Ends (rest : List UInt8) : Prop :=
  ∀ b, rest.head? = some b
    → isNumeric (Char.ofNat b.toNat) = false ∧ (Char.ofNat b.toNat).isAlpha = false

def Spells (text : List Char) (tokens : List Token) : Prop :=
  ∀ done rest, Ends rest
    → run .between done (utf8 text ++ rest) = run .between (tokens.reverse ++ done) rest

theorem Goes.spells (h : Goes .between text .between tokens)
    : Spells text tokens := fun done rest _ => h done rest

/-- A token that ends with the text, or before the next byte. -/
theorem spells_of_goes (h : Goes .between text mode []) (last : finish mode = some [token])
    (next : ∀ b : UInt8, isNumeric (Char.ofNat b.toNat) = false
      → (Char.ofNat b.toNat).isAlpha = false
      → step mode b = (begin (Char.ofNat b.toNat)).map fun found => (found.1, token :: found.2))
    : Spells text [token] := by
  intro done rest ends
  rw [h done rest]
  cases rest with
  | nil =>
    rw [run, last, run]
    simp [finish]
  | cons b rest =>
    obtain ⟨numeric, alpha⟩ := ends b rfl
    rw [run, next b numeric alpha, run, step]
    cases begin (Char.ofNat b.toNat) <;> simp

theorem spells_word (start : Goes .between text (.inWord text.reverse) [])
    (known : wordToken? text.reverse = some token) : Spells text [token] := by
  refine spells_of_goes start (by simp [finish, known]) fun b _ alpha => ?_
  simp only [step, alpha, known]
  cases begin (Char.ofNat b.toNat) <;> rfl

theorem spells_null : Spells "null".toList [.scalar .null] :=
  spells_word (.cons (by decide) rfl (.cons (by decide) rfl (.cons (by decide) rfl
    (.char (by decide) rfl)))) rfl

theorem spells_true : Spells "true".toList [.scalar (.bool true)] :=
  spells_word (.cons (by decide) rfl (.cons (by decide) rfl (.cons (by decide) rfl
    (.char (by decide) rfl)))) rfl

theorem spells_false : Spells "false".toList [.scalar (.bool false)] :=
  spells_word (.cons (by decide) rfl (.cons (by decide) rfl (.cons (by decide) rfl
    (.cons (by decide) rfl (.char (by decide) rfl))))) rfl

theorem toNat_lt_of_isDigit (h : c.isDigit) : c.toNat < 0x80 := by
  have bounds := Char.isDigit_iff_toNat.mp h
  have nine : '9'.toNat = 57 := rfl
  omega

theorem goes_digits {ds : List Char} (h : ∀ c ∈ ds, c.isDigit) (before : List Char)
    : Goes (.inNumber before) ds (.inNumber (ds.reverse ++ before)) [] := by
  induction ds generalizing before with
  | nil => exact .refl _
  | cons c ds ih =>
    have digit := h c (by simp)
    have ascii := toNat_lt_of_isDigit digit
    have rest := ih (fun d member => h d (List.mem_cons_of_mem _ member)) (c :: before)
    rw [List.reverse_cons, List.append_assoc]
    refine .cons ascii ?_ rest
    simp only [step, ofNat_toUInt8 ascii, isNumeric, digit]
    rfl

/-- Digits are a number once something else comes. -/
theorem spells_digits {ds : List Char} (some_digit : ds ≠ []) (h : ∀ c ∈ ds, c.isDigit)
    (known : numberToken? ds.reverse = some token) : Spells ds [token] := by
  have start : Goes .between ds (.inNumber ds.reverse) [] := by
    cases ds with
    | nil => contradiction
    | cons c ds =>
      have digit := h c (by simp)
      have ascii := toNat_lt_of_isDigit digit
      have rest := goes_digits (fun d member => h d (List.mem_cons_of_mem _ member)) [c]
      rw [List.reverse_cons]
      refine .cons ascii ?_ rest
      have other {d : Char} (apart : d.isDigit = false) : c ≠ d := by
        rintro rfl
        simp [digit] at apart
      simp only [step, ofNat_toUInt8 ascii, begin]
      simp [digit, other]
  refine spells_of_goes start (by simp [finish, known]) fun b numeric _ => ?_
  simp only [step, numeric, known]
  cases begin (Char.ofNat b.toNat) <;> rfl

end Lexer

end DesignMetrics.Json
