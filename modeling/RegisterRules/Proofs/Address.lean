import RegisterRules.Proofs.Summary

/-!
# Column references and their digits

The digits of a column reference fall into three parts: five for the register, one for the table
part, and the column behind them. `Cell.Address` is such a row of digits, taken apart, with all that
a reference asks of it. Decoding a text finds the address behind its mark, and everything that can
be said of a decoded reference is said of its address.

In particular a reference to another column of the same table has an address of its own: the number
of the column is written with two digits at least, so it is never too short.

## Main definitions

* `Cell.Address`: the digits of a reference.
* `Cell.Address.cell`: the reference with these digits.
* `Cell.Address.withColumn`: the address of another column of the same table.

## Main results

* `Cell.isMark_iff`: the letters of the mark.
* `Cell.decode?_eq_some_iff`: a text is decoded to the reference of the address behind its mark.
* `Cell.Address.atColumn_cell`: another column of the same table.
* `Cell.Address.sameColumn_cell_iff`: when two addresses are of one column.
* `Cell.decode?_display_inverse`: decoding and printing are inverse to each other.
-/

namespace RegisterRules

/-! ### Letters and digits -/

namespace Text

theorem toNat_ofNat_of_lt {n : ℕ} (h : n < 0xD800) : (Char.ofNat n).toNat = n := by
  have hvalid : n.isValidChar := .inl h
  rw [Char.ofNat, dif_pos hvalid]
  rfl

/-- A small letter is the small letter of itself and of its capital, and of nothing else. -/
theorem lower_eq_iff {c : Char} {n : ℕ} (hlow : 0x410 ≤ n) (hhigh : n ≤ 0x42F) :
    lower c = Char.ofNat (n + 0x20) ↔ c = Char.ofNat (n + 0x20) ∨ c = Char.ofNat n := by
  have hsmall : (Char.ofNat (n + 0x20)).toNat = n + 0x20 := toNat_ofNat_of_lt (by omega)
  have hcapital : (Char.ofNat n).toNat = n := toNat_ofNat_of_lt (by omega)
  rw [lower, ← Char.toNat_inj, ← Char.toNat_inj, ← Char.toNat_inj, hsmall, hcapital]
  split
  · rw [toNat_ofNat_of_lt (by omega)]
    omega
  · omega

/-- A digit and its value. -/
theorem digitChar_value {c : Char} (h : c.isDigit = true) :
    Nat.ofDigitChars 10 [c] 0 < 10 ∧ (Nat.ofDigitChars 10 [c] 0).digitChar = c := by
  have hall : ∀ n < 58, 48 ≤ n → n - 48 < 10 ∧ (n - 48).digitChar = Char.ofNat n := by decide
  obtain ⟨hlow, hhigh⟩ := Token.Piece.toNat_of_isDigit h
  have hvalue : Nat.ofDigitChars 10 [c] 0 = c.toNat - 48 := by
    rw [Nat.ofDigitChars_eq_foldl]
    simp
  rw [hvalue]
  obtain ⟨hlt, hchar⟩ := hall c.toNat (by omega) hlow
  exact ⟨hlt, by rw [hchar, Char.ofNat_toNat]⟩

theorem utf8Size_of_isDigit {c : Char} (h : c.isDigit = true) : c.utf8Size = 1 := by
  rw [Char.utf8Size_eq_one_iff, UInt32.le_iff_toNat_le, Char.toNat_val]
  exact Nat.le_trans (Token.Piece.toNat_of_isDigit h).2 (by decide)

/-! ### Numbers with two digits at least -/

theorem isDigit_decimalPadded (n : ℕ) : ∀ c ∈ (decimalPadded n).toList, c.isDigit = true := by
  have hdigits : ∀ c ∈ Nat.toDigits 10 n, c.isDigit = true := fun c hc =>
    Nat.isDigit_of_mem_toDigits (by decide) (by decide) hc
  rw [decimalPadded, decimal, String.toList_append, String.toList_ofList]
  split
  · exact List.forall_mem_cons.mpr ⟨by decide, hdigits⟩
  · exact hdigits

theorem ofDigitChars_decimalPadded (n : ℕ) :
    Nat.ofDigitChars 10 (decimalPadded n).toList 0 = n := by
  have hvalue : Nat.ofDigitChars 10 (Nat.toDigits 10 n) 0 = n := Nat.ofDigitChars_ten_toDigits
  rw [decimalPadded, decimal, String.toList_append, String.toList_ofList]
  split
  · exact hvalue
  · exact hvalue

theorem two_le_length_decimalPadded (n : ℕ) : 2 ≤ (decimalPadded n).toList.length := by
  have hpos : ∀ m, 0 < (Nat.toDigits 10 m).length := fun m =>
    List.length_pos_iff.mpr Nat.toDigits_ne_nil
  rw [decimalPadded, decimal, String.toList_append, String.toList_ofList, List.length_append]
  split
  · exact Nat.add_le_add (Nat.le_refl 1) (hpos n)
  · next hn =>
    rw [Nat.toDigits_of_base_le (by decide) (by omega), List.length_append]
    have hrest := hpos (n / 10)
    simp only [List.length_singleton]
    omega

end Text

namespace Cell

/-- The mark is written with two letters, each small or capital. -/
theorem isMark_iff {first second : Char} :
    isMark first second = true ↔
      (first = 'г' ∨ first = 'Г') ∧ (second = 'р' ∨ second = 'Р') := by
  rw [isMark, Bool.and_eq_true, beq_iff_eq, beq_iff_eq]
  exact and_congr (Text.lower_eq_iff (n := 0x413) (by decide) (by decide))
    (Text.lower_eq_iff (n := 0x420) (by decide) (by decide))

/-! ### Addresses -/

/-- The digits of a reference, taken apart. -/
structure Address where
  /-- The digits of the register. -/
  code : List Char
  /-- The digit of the table part. -/
  part : Char
  /-- The digits of the column. -/
  column : List Char
  length_code : code.length = 5
  two_le_length : 2 ≤ column.length
  isDigit : ∀ d ∈ code ++ part :: column, d.isDigit = true
  column_lt : Nat.ofDigitChars 10 column 0 < 2 ^ 32

namespace Address

/-- The digits in a row. -/
def digits (a : Address) : List Char := a.code ++ a.part :: a.column

/-- The reference with these digits. -/
def cell (a : Address) : Cell where
  code := String.ofList a.code
  part := UInt8.ofNat (Nat.ofDigitChars 10 [a.part] 0)
  column := UInt32.ofNat (Nat.ofDigitChars 10 a.column 0)
  digits := String.ofList a.digits

variable (a b : Address)

/-- The digits of the table in front of those of the column. -/
theorem digits_eq : a.digits = (a.code ++ [a.part]) ++ a.column := by
  rw [digits, List.append_assoc, List.singleton_append]

theorem length_table : (a.code ++ [a.part]).length = 6 := by
  rw [List.length_append, a.length_code]
  rfl

theorem take_digits : a.digits.take 6 = a.code ++ [a.part] := by
  rw [digits_eq, ← a.length_table, List.take_left]

theorem drop_digits : a.digits.drop 6 = a.column := by
  rw [digits_eq, ← a.length_table, List.drop_left]

theorem isDigit_part : a.part.isDigit = true := a.isDigit _ (by simp)

/-- The digits of a reference are eight at least, with a column that is not too large. -/
theorem exists_digits_eq_iff {digits : List Char} :
    (∃ a : Address, a.digits = digits) ↔
      8 ≤ digits.length ∧ (∀ d ∈ digits, d.isDigit = true) ∧
        Nat.ofDigitChars 10 (digits.drop 6) 0 < 2 ^ 32 := by
  constructor
  · rintro ⟨a, rfl⟩
    refine ⟨?_, a.isDigit, ?_⟩
    · have hcode := a.length_code
      have hcolumn := a.two_le_length
      rw [Address.digits, List.length_append, List.length_cons]
      omega
    · rw [a.drop_digits]
      exact a.column_lt
  · rintro ⟨hlength, hdigits, hlt⟩
    have hpart : 5 < digits.length := by omega
    have hsplit : digits.take 5 ++ digits[5] :: digits.drop 6 = digits := by
      rw [← List.drop_eq_getElem_cons, List.take_append_drop]
    refine ⟨⟨digits.take 5, digits[5], digits.drop 6, ?_, ?_, ?_, hlt⟩, hsplit⟩
    · rw [List.length_take]
      omega
    · rw [List.length_drop]
      omega
    · rw [hsplit]
      exact hdigits

theorem ofDigits?_digits : ofDigits? a.digits = some a.cell := by
  obtain ⟨hlength, hdigits, hlt⟩ := exists_digits_eq_iff.mp ⟨a, rfl⟩
  have hcode : a.digits.take 5 = a.code := by
    rw [digits, ← a.length_code, List.take_left]
  have hpart : (a.digits.drop 5).take 1 = [a.part] := by
    rw [digits, ← a.length_code, List.drop_left]
    rfl
  rw [ofDigits?, if_pos ⟨hlength, List.all_eq_true.mpr hdigits⟩]
  dsimp only [columnPlace]
  rw [if_pos (show _ < UInt32.size from hlt), hcode, hpart, a.drop_digits]
  rfl

end Address

theorem ofDigits?_eq_some_iff {digits : List Char} {c : Cell} :
    ofDigits? digits = some c ↔ ∃ a : Address, a.digits = digits ∧ a.cell = c := by
  constructor
  · intro h
    have hparts : ∃ a : Address, a.digits = digits := by
      rw [ofDigits?] at h
      split at h
      · next hdigits =>
        dsimp only at h
        split at h
        · next hlt =>
          exact Address.exists_digits_eq_iff.mpr
            ⟨hdigits.1, List.all_eq_true.mp hdigits.2, hlt⟩
        · cases h
      · cases h
    obtain ⟨a, rfl⟩ := hparts
    rw [a.ofDigits?_digits] at h
    exact ⟨a, rfl, Option.some.inj h⟩
  · rintro ⟨a, rfl, rfl⟩
    exact a.ofDigits?_digits

/-- **Decoding.** A text is decoded to the reference of the address behind its mark. -/
theorem decode?_eq_some_iff {text : String} {c : Cell} :
    decode? text = some c ↔
      ∃ first second, ∃ a : Address, text.toList = first :: second :: a.digits ∧
        isMark first second = true ∧ a.cell = c := by
  constructor
  · intro h
    rw [decode?] at h
    split at h
    · next hmark =>
      obtain ⟨a, hdigits, rfl⟩ := ofDigits?_eq_some_iff.mp h
      rcases htext : text.toList with - | ⟨first, - | ⟨second, rest⟩⟩
      · rw [htext] at hmark
        cases hmark
      · rw [htext] at hmark
        cases hmark
      · rw [htext] at hmark hdigits
        exact ⟨first, second, a, by rw [hdigits]; rfl, hmark, rfl⟩
    · cases h
  · rintro ⟨first, second, a, htext, hmark, rfl⟩
    rw [decode?, htext, if_pos (show isMarked (first :: second :: a.digits) = true from hmark)]
    exact a.ofDigits?_digits

theorem isSome_decode?_iff (text : String) :
    (decode? text).isSome = true ↔
      ∃ first second digits, text.toList = first :: second :: digits ∧
        ((first = 'г' ∨ first = 'Г') ∧ (second = 'р' ∨ second = 'Р')) ∧
        8 ≤ digits.length ∧ (∀ d ∈ digits, d.isDigit = true) ∧
        Nat.ofDigitChars 10 (digits.drop 6) 0 < 2 ^ 32 := by
  rw [Option.isSome_iff_exists]
  constructor
  · rintro ⟨c, h⟩
    obtain ⟨first, second, a, htext, hmark, -⟩ := decode?_eq_some_iff.mp h
    exact ⟨first, second, a.digits, htext, isMark_iff.mp hmark,
      Address.exists_digits_eq_iff.mp ⟨a, rfl⟩⟩
  · rintro ⟨first, second, digits, htext, hmark, hdigits⟩
    obtain ⟨a, rfl⟩ := Address.exists_digits_eq_iff.mpr hdigits
    exact ⟨a.cell, decode?_eq_some_iff.mpr ⟨first, second, a, htext, isMark_iff.mpr hmark, rfl⟩⟩

/-- Behind the mark, digits are refused only if they are too few or the column is too large. -/
theorem decode?_eq_none_iff {text : String} {first second : Char} {digits : List Char}
    (htext : text.toList = first :: second :: digits) (hmark : isMark first second = true)
    (hdigits : ∀ d ∈ digits, d.isDigit = true) :
    decode? text = none ↔
      digits.length < 8 ∨ 2 ^ 32 ≤ Nat.ofDigitChars 10 (digits.drop 6) 0 := by
  rw [← Option.not_isSome_iff_eq_none, isSome_decode?_iff]
  constructor
  · intro h
    by_contra hfits
    rw [not_or, Nat.not_lt, Nat.not_le] at hfits
    exact h ⟨first, second, digits, htext, isMark_iff.mp hmark, hfits.1, hdigits, hfits.2⟩
  · rintro h ⟨first', second', digits', htext', -, hlength, -, hlt⟩
    obtain ⟨-, -, rfl⟩ : first = first' ∧ second = second' ∧ digits = digits' := by
      simpa using htext.symm.trans htext'
    omega

/-! ### The reference of an address -/

namespace Address

variable (a b : Address)

theorem toNat_part_cell : a.cell.part.toNat = Nat.ofDigitChars 10 [a.part] 0 := by
  have hlt := (Text.digitChar_value a.isDigit_part).1
  exact UInt8.toNat_ofNat_of_lt' (Nat.lt_trans hlt (by decide))

theorem toNat_column_cell : a.cell.column.toNat = Nat.ofDigitChars 10 a.column 0 :=
  UInt32.toNat_ofNat_of_lt' a.column_lt

theorem decimal_part_cell : Text.decimal a.cell.part.toNat = String.ofList [a.part] := by
  obtain ⟨hlt, hchar⟩ := Text.digitChar_value a.isDigit_part
  rw [Text.decimal, toNat_part_cell, Nat.toDigits_of_lt_base hlt, hchar]

/-- Where all characters are digits, bytes are counted like characters. -/
theorem dropBytes?_of_isDigit {front : List Char} (h : ∀ d ∈ front, d.isDigit = true)
    (rest : List Char) : dropBytes? front.length (front ++ rest) = some rest := by
  induction front with
  | nil => exact dropBytes?.eq_1 rest
  | cons d front ih =>
    obtain ⟨hd, hfront⟩ := List.forall_mem_cons.mp h
    rw [List.length_cons, List.cons_append, dropBytes?, Text.utf8Size_of_isDigit hd,
      if_pos (by omega), Nat.add_sub_cancel]
    exact ih hfront

theorem toList_digits_cell : a.cell.digits.toList = a.digits := String.toList_ofList

theorem columnText_cell : a.cell.columnText = String.ofList a.column := by
  have hfront : ∀ d ∈ a.code ++ [a.part], d.isDigit = true := fun d hd =>
    a.isDigit d (by simpa using List.mem_append_left a.column hd)
  have hdrop : dropBytes? columnPlace a.digits = some a.column := by
    rw [digits_eq, show columnPlace = (a.code ++ [a.part]).length from a.length_table.symm]
    exact dropBytes?_of_isDigit hfront a.column
  rw [columnText, a.toList_digits_cell, hdrop]
  rfl

theorem decode?_display_cell : decode? a.cell.display = some a.cell := by
  refine decode?_eq_some_iff.mpr ⟨'г', 'р', a, ?_, by decide, rfl⟩
  rw [toList_display, a.toList_digits_cell]

/-- The address of another column of the same table. -/
def withColumn (n : UInt32) : Address where
  code := a.code
  part := a.part
  column := (Text.decimalPadded n.toNat).toList
  length_code := a.length_code
  two_le_length := Text.two_le_length_decimalPadded n.toNat
  isDigit := by
    intro d hd
    rw [List.mem_append, List.mem_cons] at hd
    rcases hd with hd | rfl | hd
    · exact a.isDigit d (List.mem_append_left _ hd)
    · exact a.isDigit_part
    · exact Text.isDigit_decimalPadded n.toNat d hd
  column_lt := by
    rw [Text.ofDigitChars_decimalPadded]
    exact n.toNat_lt

theorem atColumn_cell (n : UInt32) : a.cell.atColumn n = (a.withColumn n).cell := by
  have hcolumn : UInt32.ofNat (Nat.ofDigitChars 10 (a.withColumn n).column 0) = n := by
    rw [withColumn, Text.ofDigitChars_decimalPadded, UInt32.ofNat_toNat]
  have hdigits : a.cell.code ++ Text.decimal a.cell.part.toNat ++ Text.decimalPadded n.toNat =
      String.ofList (a.withColumn n).digits := by
    rw [decimal_part_cell, digits, withColumn, ← String.toList_inj]
    simp [cell]
  rw [atColumn, hdigits, cell, cell, hcolumn]
  rfl

/-- Two addresses are of one column if they agree in the first six digits and in the number that the
others spell. -/
theorem sameColumn_cell_iff :
    a.cell.sameColumn b.cell = true ↔
      a.digits.take 6 = b.digits.take 6 ∧
        Nat.ofDigitChars 10 (a.digits.drop 6) 0 = Nat.ofDigitChars 10 (b.digits.drop 6) 0 := by
  have hcode : a.cell.code = b.cell.code ↔ a.code = b.code := String.ofList_inj
  have hpart : a.cell.part = b.cell.part ↔ a.part = b.part := by
    constructor
    · intro h
      have hvalue : Nat.ofDigitChars 10 [a.part] 0 = Nat.ofDigitChars 10 [b.part] 0 := by
        rw [← toNat_part_cell, ← toNat_part_cell, h]
      rw [← (Text.digitChar_value a.isDigit_part).2, hvalue,
        (Text.digitChar_value b.isDigit_part).2]
    · intro h
      rw [cell, cell, h]
  have hcolumn : a.cell.column = b.cell.column ↔
      Nat.ofDigitChars 10 a.column 0 = Nat.ofDigitChars 10 b.column 0 := by
    rw [← UInt32.toNat_inj, toNat_column_cell, toNat_column_cell]
  have htable : a.code ++ [a.part] = b.code ++ [b.part] ↔ a.code = b.code ∧ a.part = b.part := by
    rw [← List.concat_eq_append, ← List.concat_eq_append, List.concat_inj]
  rw [sameColumn, Bool.and_eq_true, Bool.and_eq_true, beq_iff_eq, beq_iff_eq, beq_iff_eq, hcode,
    hpart, hcolumn, a.take_digits, b.take_digits, a.drop_digits, b.drop_digits, htable]

end Address

/-- **Decoding and printing are inverse to each other.**

A text is decoded exactly if it is the mark, in small or capital letters, and behind it eight digits
or more, of which those from the seventh on spell a number below `2 ^ 32`. The digits of the decoded
reference are those of the text; register, table part and column follow each other in them; and the
reference is decoded again from its own text. So is every other column of the same table. Two
decoded references are to one column if and only if their first six digits agree and the others
spell the same number. -/
theorem decode?_display_inverse :
    (∀ text : String, (decode? text).isSome = true ↔
      ∃ first second digits, text.toList = first :: second :: digits ∧
        ((first = 'г' ∨ first = 'Г') ∧ (second = 'р' ∨ second = 'Р')) ∧
        8 ≤ digits.length ∧ (∀ d ∈ digits, d.isDigit = true) ∧
        Nat.ofDigitChars 10 (digits.drop 6) 0 < 2 ^ 32) ∧
    (∀ text c, decode? text = some c →
      c.digits.toList = text.toList.drop 2 ∧
      c.code ++ Text.decimal c.part.toNat ++ c.columnText = c.digits ∧
      c.part.toNat < 10 ∧
      c.column.toNat = Nat.ofDigitChars 10 c.columnText.toList 0 ∧
      decode? c.display = some c ∧
      ∀ n : UInt32, decode? (c.atColumn n).display = some (c.atColumn n)) ∧
    (∀ text text' c c', decode? text = some c → decode? text' = some c' →
      (c.sameColumn c' = true ↔
        c.digits.toList.take 6 = c'.digits.toList.take 6 ∧
          Nat.ofDigitChars 10 (c.digits.toList.drop 6) 0 =
            Nat.ofDigitChars 10 (c'.digits.toList.drop 6) 0)) := by
  refine ⟨isSome_decode?_iff, fun text c h => ?_, fun text text' c c' h h' => ?_⟩
  · obtain ⟨first, second, a, htext, -, rfl⟩ := decode?_eq_some_iff.mp h
    refine ⟨?_, ?_, ?_, ?_, a.decode?_display_cell, fun n => ?_⟩
    · rw [htext, a.toList_digits_cell]
      rfl
    · rw [a.decimal_part_cell, a.columnText_cell, ← String.toList_inj, a.toList_digits_cell,
        a.digits_eq]
      simp [Address.cell]
    · rw [a.toNat_part_cell]
      exact (Text.digitChar_value a.isDigit_part).1
    · rw [a.toNat_column_cell, a.columnText_cell, String.toList_ofList]
    · rw [a.atColumn_cell]
      exact (a.withColumn n).decode?_display_cell
  · obtain ⟨-, -, a, -, -, rfl⟩ := decode?_eq_some_iff.mp h
    obtain ⟨-, -, b, -, -, rfl⟩ := decode?_eq_some_iff.mp h'
    rw [a.toList_digits_cell, b.toList_digits_cell]
    exact a.sameColumn_cell_iff b

/-- Two spellings of one column, and the last column of its table. -/
theorem decode?_display_inverse_leadingZero :
    decode? "Гр101022012" = some ⟨"10102", 2, 12, "101022012"⟩ ∧
    decode? "гР10102212" = some ⟨"10102", 2, 12, "10102212"⟩ ∧
    sameColumn ⟨"10102", 2, 12, "101022012"⟩ ⟨"10102", 2, 12, "10102212"⟩ = true ∧
    decode? "гр1010224294967295" = some ⟨"10102", 2, 4294967295, "1010224294967295"⟩ := by
  have hzero : decode? "Гр101022012" = some ⟨"10102", 2, 12, "101022012"⟩ := by decide +kernel
  have hplain : decode? "гР10102212" = some ⟨"10102", 2, 12, "10102212"⟩ := by decide +kernel
  obtain ⟨-, hdecoded, hsame⟩ := decode?_display_inverse
  refine ⟨hzero, hplain, ?_, ?_⟩
  · rw [hsame _ _ _ _ hzero hplain]
    decide +kernel
  · obtain ⟨-, -, -, -, -, hother⟩ := hdecoded _ _ hzero
    exact hother 4294967295

end Cell

end RegisterRules
