import RegisterRules.Json.Printer
import RegisterRules.Json.Reader
import RegisterRules.Proofs.NumberText

/-!
# Numbers in documents read back

A number in a document is digits, perhaps a point with digits behind it, and perhaps an exponent. It
is a whole number if it has neither point nor exponent, so the text of a binary64 number always has
one of them, and the text of a whole number has none. What is read is then the decimal that was
written, or one of the same size.

No number goes on with a comma, a bracket, a blank or the end of the text, and in a document nothing
else stands behind one.

## Main definitions

* `Number.IsWhole`: digits without a needless zero in front.
* `Number.exponentChars`: an exponent with its mark and its sign.
* `Json.Reader.EndsNumber`: a text that goes on with no number.

## Main results

* `Binary64.exists_documentText`: what the text of a number in a document looks like.
* `Json.Reader.unsigned?_append`: what such a text is read as.
* `Json.Reader.number?_text`, `Json.Reader.number?_integer`: both kinds of numbers read back.
-/

namespace RegisterRules

/-! ### Written numbers -/

namespace Number

/-- Digits without a needless zero in front. -/
structure IsWhole (whole : List Char) : Prop where
  nonempty : whole ≠ []
  digits : ∀ c ∈ whole, c.isDigit = true
  lead : whole.head? = some '0' → whole = ['0']

/-- Only the number zero starts with a zero. -/
theorem head?_toDigits_ne {n : ℕ} (h : n ≠ 0) : (Nat.toDigits 10 n).head? ≠ some '0' := by
  have hsmall : ∀ n < 10, n ≠ 0 → n.digitChar ≠ '0' := by decide
  induction n using Nat.strongRecOn with
  | ind n ih =>
    rcases Nat.lt_or_ge n 10 with hlt | hge
    · rw [Nat.toDigits_of_lt_base hlt]
      simpa using hsmall n hlt h
    · have hdiv : n / 10 ≠ 0 := by omega
      have hlead := ih (n / 10) (by omega) hdiv
      obtain ⟨c, more, hdigits⟩ := List.exists_cons_of_ne_nil
        (Nat.toDigits_ne_nil : Nat.toDigits 10 (n / 10) ≠ [])
      rw [Nat.toDigits_of_base_le (by decide) hge, hdigits]
      rwa [hdigits] at hlead

theorem isWhole_toDigits (n : ℕ) : IsWhole (Nat.toDigits 10 n) where
  nonempty := Nat.toDigits_ne_nil
  digits c := Nat.isDigit_of_mem_toDigits (by decide) (by decide)
  lead h := by
    by_contra hne
    refine head?_toDigits_ne ?_ h
    rintro rfl
    exact hne rfl

/-- An exponent with its mark and its sign, if there is one. -/
def exponentChars : Option ℤ → List Char
  | none => []
  | some e => 'e' :: (if e < 0 then '-' else '+') :: Nat.toDigits 10 e.natAbs

/-- Digits with an exponent spell the decimal itself. -/
theorem exists_scientific_eq (d : Decimal) :
    ∃ first rest, d.digits = first :: rest ∧
      scientific d.digits d.order = pointed [first] rest ++ exponentChars (some (d.order - 1)) ∧
      Numeral.decimal [first] rest (d.order - 1) = d := by
  obtain ⟨first, rest, hdigits⟩ : ∃ first rest, d.digits = first :: rest :=
    List.exists_cons_of_ne_nil Nat.toDigits_ne_nil
  refine ⟨first, rest, hdigits, ?_, ?_⟩
  · rw [hdigits]
    rcases rest with - | ⟨second, rest⟩ <;> rfl
  · have hvalue : Nat.ofDigitChars 10 d.digits 0 = d.coefficient := Nat.ofDigitChars_ten_toDigits
    have horder : d.order = d.digits.length + d.exponent := rfl
    rw [hdigits] at hvalue horder
    rw [List.length_cons] at horder
    have hexponent : d.order - 1 - rest.length = d.exponent := by
      push_cast at horder
      omega
    rw [Numeral.decimal, List.singleton_append, hvalue, hexponent]

/-- **The text of a magnitude in a document.** It has a point or an exponent, and spells a decimal
that rounds to the magnitude. -/
theorem exists_document_magnitude {rank : ℕ} (h : rank < Binary64.rankBound) :
    ∃ whole fraction exponent,
      Layout.document.magnitude rank = pointed whole fraction ++ exponentChars exponent ∧
      IsWhole whole ∧ (∀ c ∈ fraction, c.isDigit = true) ∧ ¬ (fraction = [] ∧ exponent = none) ∧
      (Numeral.decimal whole fraction (exponent.getD 0)).rank? = some rank := by
  rw [Layout.magnitude]
  rcases eq_or_ne rank 0 with rfl | hzero
  · exact ⟨['0'], ['0'], none, rfl, ⟨by simp, by simp, by simp⟩, by simp, by simp, rfl⟩
  rw [if_neg hzero]
  have hshortest := Decimal.rank?_shortest Layout.document.tie hzero h
  generalize Decimal.shortest Layout.document.tie rank = d at hshortest ⊢
  have hcoefficient : d.coefficient ≠ 0 := by
    intro hnone
    rw [Decimal.rank?, if_pos hnone] at hshortest
    exact hzero (Option.some.inj hshortest).symm
  have hlead : d.digits.head? ≠ some '0' := head?_toDigits_ne hcoefficient
  dsimp only
  split
  · obtain ⟨whole, fraction, hplain, hne, hwhole, hfraction, hrank, hfirst, hpoint⟩ :=
      exists_plain_eq true d
    refine ⟨whole, fraction, none, ?_, ⟨hne, hwhole, fun hhead => ?_⟩, hfraction,
      fun hnone => hpoint rfl hnone.1, hrank.trans hshortest⟩
    · rw [exponentChars, List.append_nil, ← hplain]
      rfl
    · rcases hfirst with hfirst | hfirst
      · exact hfirst
      · exact absurd (hfirst ▸ hhead) hlead
  · obtain ⟨first, rest, hdigits, htext, hdecimal⟩ := exists_scientific_eq d
    have hdigit : ∀ c ∈ first :: rest, c.isDigit = true := by
      rw [← hdigits]
      exact fun c => Nat.isDigit_of_mem_toDigits (by decide) (by decide)
    obtain ⟨hfirst, hrest⟩ := List.forall_mem_cons.mp hdigit
    refine ⟨[first], rest, some (d.order - 1), htext, ⟨by simp, by simpa using hfirst, ?_⟩, hrest,
      by simp, ?_⟩
    · intro hhead
      rw [hdigits] at hlead
      exact absurd hhead hlead
    · rw [Option.getD_some, hdecimal, hshortest]

end Number

/-! ### Reading them -/

namespace Json

namespace Reader

open Number

/-- A text that no number goes on with. -/
def EndsNumber (rest : List Char) : Prop :=
  ∀ c ∈ rest.head?, c.isDigit = false ∧ c ∉ ['.', 'e', 'E']

theorem endsNumber_nil : EndsNumber [] := by
  intro c hc
  cases hc

theorem fraction?_append {fraction rest : List Char} (hfraction : ∀ c ∈ fraction, c.isDigit = true)
    (hrest : ∀ c ∈ rest.head?, c.isDigit = false ∧ c ≠ '.') :
    fraction? ((if fraction = [] then [] else '.' :: fraction) ++ rest) =
      some (fraction, rest) := by
  rcases eq_or_ne fraction [] with rfl | hne
  · rw [if_pos rfl, List.nil_append, fraction?.eq_def]
    split
    · next more => exact absurd rfl (hrest '.' rfl).2
    · rfl
  · obtain ⟨c, more, rfl⟩ := List.exists_cons_of_ne_nil hne
    have hstop : ∀ c ∈ rest.head?, c.isDigit = false := fun c hc => (hrest c hc).1
    rw [if_neg hne, List.cons_append, fraction?, Text.takeWhile_append_stop hfraction hstop,
      Text.dropWhile_append_stop hfraction hstop]

theorem exponent?_append (exponent : Option ℤ) {rest : List Char} (hrest : EndsNumber rest) :
    exponent? (exponentChars exponent ++ rest) = some (exponent, rest) := by
  rcases exponent with - | e
  · rw [exponentChars, List.nil_append]
    rcases rest with - | ⟨c, rest⟩
    · rfl
    · have hmark := (hrest c rfl).2
      rw [exponent?, if_neg (by simp_all)]
  · have hstop : ∀ c ∈ rest.head?, c.isDigit = false := fun c hc => (hrest c hc).1
    have hdigits := (isWhole_toDigits e.natAbs).digits
    have hvalue : Nat.ofDigitChars 10 (Nat.toDigits 10 e.natAbs) 0 = e.natAbs :=
      Nat.ofDigitChars_ten_toDigits
    have hsign : Numeral.sign ((if e < 0 then '-' else '+') :: (Nat.toDigits 10 e.natAbs ++ rest)) =
        (decide (e < 0), Nat.toDigits 10 e.natAbs ++ rest) := by
      by_cases hneg : e < 0
      · rw [if_pos hneg, decide_eq_true hneg]
        rfl
      · rw [if_neg hneg, decide_eq_false hneg]
        rfl
    rw [exponentChars, List.cons_append, List.cons_append, exponent?, if_pos (.inl rfl), hsign]
    dsimp only
    rw [Text.takeWhile_append_stop hdigits hstop, Text.dropWhile_append_stop hdigits hstop]
    obtain ⟨c, more, hcons⟩ := List.exists_cons_of_ne_nil
      (Nat.toDigits_ne_nil : Nat.toDigits 10 e.natAbs ≠ [])
    rw [hcons] at hvalue ⊢
    have hsize : (if e < 0 then -(e.natAbs : ℤ) else e.natAbs) = e := by
      split <;> omega
    simp only [hvalue, decide_eq_true_eq, hsize]

/-- **What digits with a point and an exponent are read as.** -/
theorem unsigned?_append (negative : Bool) {whole fraction rest : List Char} (exponent : Option ℤ)
    (hwhole : IsWhole whole) (hfraction : ∀ c ∈ fraction, c.isDigit = true)
    (hrest : EndsNumber rest) :
    unsigned? negative (pointed whole fraction ++ (exponentChars exponent ++ rest)) =
      if fraction = [] ∧ exponent = none then
        if negative ∧ Nat.ofDigitChars 10 whole 0 = 0 then some (.real .negZero, rest)
        else some (.int (if negative then -(Nat.ofDigitChars 10 whole 0 : ℤ)
          else Nat.ofDigitChars 10 whole 0), rest)
      else (Binary64.ofDecimal? negative (Numeral.decimal whole fraction (exponent.getD 0))).map
        fun x => (.real x, rest) := by
  have hbehind : ∀ c ∈ (exponentChars exponent ++ rest).head?, c.isDigit = false ∧ c ≠ '.' := by
    rcases exponent with - | e
    · intro c hc
      have hend := hrest c hc
      simp_all
    · intro c hc
      obtain rfl : 'e' = c := by simpa [exponentChars] using hc
      decide
  have hpoint : ∀ c ∈ ((if fraction = [] then [] else '.' :: fraction) ++
      (exponentChars exponent ++ rest)).head?, c.isDigit = false := by
    intro c hc
    split at hc
    · exact (hbehind c hc).1
    · obtain rfl : '.' = c := by simpa using hc
      rfl
  have hlead : ¬ (whole = [] ∨ whole.head? = some '0' ∧ whole ≠ ['0']) := by
    rintro (hnone | ⟨hzero, hmore⟩)
    · exact hwhole.nonempty hnone
    · exact hmore (hwhole.lead hzero)
  rw [unsigned?, pointed, List.append_assoc, Text.takeWhile_append_stop hwhole.digits hpoint,
    Text.dropWhile_append_stop hwhole.digits hpoint, if_neg hlead,
    fraction?_append hfraction hbehind]
  simp only [Option.bind_eq_bind, Option.bind_some, exponent?_append exponent hrest]
  split
  · rfl
  · rcases Binary64.ofDecimal? negative (Numeral.decimal whole fraction (exponent.getD 0)) <;> rfl

/-- What an optional minus in front does. -/
theorem number?_append (negative : Bool) {text : List Char}
    (h : ∀ c ∈ text.head?, c ≠ '-') :
    number? ((if negative then ['-'] else []) ++ text) = unsigned? negative text := by
  rcases negative with - | -
  · rw [if_neg Bool.false_ne_true, List.nil_append, number?.eq_def]
    split
    · exact absurd rfl (h '-' rfl)
    · rfl
  · rfl

theorem ne_minus_of_head? {whole rest : List Char} (h : IsWhole whole) :
    ∀ c ∈ (whole ++ rest).head?, c ≠ '-' := by
  obtain ⟨c, more, rfl⟩ := List.exists_cons_of_ne_nil h.nonempty
  rintro d hd rfl
  obtain rfl : c = '-' := by simpa using hd
  exact absurd (h.digits '-' List.mem_cons_self) (by decide)

/-- **A binary64 number in a document reads back.** -/
theorem number?_text (x : Binary64) {rest : List Char} (hrest : EndsNumber rest) :
    number? ((x.text .document).toList ++ rest) = some (.real x, rest) := by
  obtain ⟨whole, fraction, exponent, htext, hwhole, hfraction, hreal, hrank⟩ :=
    exists_document_magnitude x.rank_lt
  rw [Binary64.text, String.toList_ofList, htext, List.append_assoc, List.append_assoc,
    number?_append, unsigned?_append x.negative exponent hwhole hfraction hrest, if_neg hreal]
  · simp only [Binary64.ofDecimal?, hrank, Option.bind_some, Binary64.ofRank?, dif_pos x.rank_lt]
    rfl
  · rw [pointed, List.append_assoc]
    exact ne_minus_of_head? hwhole

/-- **A whole number in a document reads back.** -/
theorem number?_integer (n : ℤ) {rest : List Char} (hrest : EndsNumber rest) :
    number? (integer n ++ rest) = some (.int n, rest) := by
  have hread : ∀ (negative : Bool) (size : ℕ), ¬ (negative = true ∧ size = 0) →
      number? ((if negative then ['-'] else []) ++ (Nat.toDigits 10 size ++ rest)) =
        some (.int (if negative then -(size : ℤ) else size), rest) := by
    intro negative size hsize
    have hvalue : Nat.ofDigitChars 10 (Nat.toDigits 10 size) 0 = size :=
      Nat.ofDigitChars_ten_toDigits
    have hplain := unsigned?_append negative none (isWhole_toDigits size)
      (List.forall_mem_nil _) hrest
    rw [pointed, if_pos rfl, List.append_nil, exponentChars, List.nil_append, if_pos ⟨rfl, rfl⟩,
      hvalue, if_neg hsize] at hplain
    rw [number?_append _ (ne_minus_of_head? (isWhole_toDigits size)), hplain]
  cases n with
  | ofNat n => exact hread false n (by simp)
  | negSucc n => exact hread true (n + 1) (by simp)

/-- A number starts with a minus or a digit. -/
theorem exists_cons_of_number? {text : List Char} {result : Json × List Char}
    (h : number? text = some result) :
    ∃ c rest, text = c :: rest ∧ (c = '-' ∨ c.isDigit = true) := by
  rcases text with - | ⟨c, rest⟩
  · simp [number?, unsigned?] at h
  refine ⟨c, rest, rfl, ?_⟩
  by_contra hnone
  obtain ⟨hminus, hdigit⟩ := not_or.mp hnone
  have hunsigned : number? (c :: rest) = unsigned? false (c :: rest) :=
    number?_append false (by simpa using hminus)
  rw [hunsigned, unsigned?, List.takeWhile_cons_of_neg hdigit, if_pos (.inl rfl)] at h
  cases h

end Reader

/-! ### No line breaks -/

theorem newline_not_mem_digits {digits : List Char} (h : ∀ c ∈ digits, c.isDigit = true) :
    '\n' ∉ digits := by
  intro hmem
  exact absurd (h '\n' hmem) (by decide)

theorem newline_not_mem_integer (n : ℤ) : '\n' ∉ integer n := by
  have hdigits : ∀ n, '\n' ∉ Nat.toDigits 10 n :=
    fun n => newline_not_mem_digits (Number.isWhole_toDigits n).digits
  cases n with
  | ofNat n => exact hdigits n
  | negSucc n => simpa [integer] using hdigits (n + 1)

theorem newline_not_mem_text (x : Binary64) : '\n' ∉ (x.text .document).toList := by
  obtain ⟨whole, fraction, exponent, htext, hwhole, hfraction, -⟩ :=
    Number.exists_document_magnitude x.rank_lt
  have hsign : ∀ negative : Bool, '\n' ∉ if negative then ['-'] else [] := by decide
  have hpoint : '\n' ∉ if fraction = [] then [] else '.' :: fraction := by
    split
    · simp
    · simpa using newline_not_mem_digits hfraction
  have hexponent : '\n' ∉ Number.exponentChars exponent := by
    rcases exponent with - | e
    · simp [Number.exponentChars]
    · have hdigits := newline_not_mem_digits (Number.isWhole_toDigits e.natAbs).digits
      rw [Number.exponentChars]
      split <;> simpa using hdigits
  rw [Binary64.text, String.toList_ofList, htext, Number.pointed]
  simp only [List.mem_append, not_or]
  exact ⟨hsign _, ⟨newline_not_mem_digits hwhole.digits, hpoint⟩, hexponent⟩

end Json

end RegisterRules
