import RegisterRules.Proofs.JsonNumber

/-!
# Documents read back

The text of a document, in either style, is read as that document. Reading goes by the first
character, and the printer leaves no doubt about it: what it writes for a document starts with a
character of its own kind, the blanks that it puts between the parts are skipped, and what stands
behind a document is a comma, a bracket, a brace, a blank or nothing.

The reader has room for as many steps as the text has characters. How many steps a document takes is
counted on the document (`Json.steps`); its text is at least that long.

The printer writes documents of any depth, and the reader takes those below its limit. So the depth
decides whether a document comes back from its text.

In the compact style there is no line break: none is put between the parts, and those in strings are
escaped.

## Main definitions

* `Json.steps`: the steps of nesting and succession that a document takes to read.

## Main results

* `Json.Reader.stringBody?_quoted`: strings read back.
* `Json.Reader.valueWithin_chars`: documents read back in front of any text that ends them.
* `Json.parse?_print`: the text of a document is read as the document if its depth allows.
* `Json.newline_not_mem_print`: the compact text has no line break.
-/

namespace RegisterRules

namespace Json

namespace Reader

/-! ### Strings -/

/-- The two digits of a control character behind two zeros are its code. -/
theorem hexUnit?_hexDigit :
    ∀ n < 0x20, hexUnit? '0' '0' (hexDigit (n / 16)) (hexDigit (n % 16)) = some n := by decide

/-- A letter or sign behind a backslash. -/
theorem stringBody?_short {mark meant : Char} (hmark : mark ≠ 'u')
    (h : shortEscape? mark = some meant) (rest : List Char) :
    stringBody? ('\\' :: mark :: rest) =
      (stringBody? rest).map fun (text, rest) => (meant :: text, rest) := by
  rw [stringBody?.eq_def]
  simp [hmark, h]

/-- A code that is no half of a pair. -/
theorem stringBody?_unit {a b c d : Char} {unit : ℕ} (h : hexUnit? a b c d = some unit)
    (hunit : unit < 0xD800) (rest : List Char) :
    stringBody? ('\\' :: 'u' :: a :: b :: c :: d :: rest) =
      (stringBody? rest).map fun (text, rest) => (Char.ofNat unit :: text, rest) := by
  have hhigh : isHigh unit = false := by
    rw [isHigh, decide_eq_false (by omega), Bool.false_and]
  have hlow : isLow unit = false := by
    rw [isLow, decide_eq_false (by omega), Bool.false_and]
  rw [stringBody?.eq_def]
  simp [h, hhigh, hlow]

/-- A character that stands for itself. -/
theorem stringBody?_plain {c : Char} (hquote : c ≠ '"') (hbackslash : c ≠ '\\')
    (hcontrol : ¬ c.toNat < 0x20) (rest : List Char) :
    stringBody? (c :: rest) = (stringBody? rest).map fun (text, rest) => (c :: text, rest) := by
  rw [stringBody?.eq_def]
  simp [hquote, hbackslash, hcontrol]

theorem stringBody?_escaped (c : Char) (rest : List Char) :
    stringBody? (escaped c ++ rest) =
      (stringBody? rest).map fun (text, rest) => (c :: text, rest) := by
  rw [escaped]
  split_ifs with hquote hbackslash hnewline hreturn htab hback hform hcontrol
  · subst hquote
    exact stringBody?_short (by decide) rfl rest
  · subst hbackslash
    exact stringBody?_short (by decide) rfl rest
  · subst hnewline
    exact stringBody?_short (by decide) rfl rest
  · subst hreturn
    exact stringBody?_short (by decide) rfl rest
  · subst htab
    exact stringBody?_short (by decide) rfl rest
  · subst hback
    exact stringBody?_short (by decide) rfl rest
  · subst hform
    exact stringBody?_short (by decide) rfl rest
  · have hunit := stringBody?_unit (hexUnit?_hexDigit c.toNat hcontrol) (by omega) rest
    rwa [Char.ofNat_toNat] at hunit
  · exact stringBody?_plain hquote hbackslash hcontrol rest

/-- **A string reads back**, and ends at its closing quote. -/
theorem stringBody?_quoted (text tail : List Char) :
    stringBody? (text.foldr (fun c rest => escaped c ++ rest) ('"' :: tail)) =
      some (text, tail) := by
  induction text with
  | nil =>
    rw [List.foldr_nil, stringBody?.eq_def]
    rfl
  | cons c text ih =>
    rw [List.foldr_cons, stringBody?_escaped, ih]
    rfl

/-! ### Blanks -/

variable {blanks text rest tail : List Char} {room : ℕ}

theorem skip_append (h : ∀ c ∈ blanks, isSpace c = true) (text : List Char) :
    skip (blanks ++ text) = skip text := List.dropWhile_append_of_pos h

theorem skip_cons {c : Char} (h : isSpace c = false) (rest : List Char) :
    skip (c :: rest) = c :: rest := List.dropWhile_cons_of_neg (by simp [h])

theorem isSpace_lineBreak (style : Style) (level : ℕ) :
    ∀ c ∈ style.lineBreak level, isSpace c = true := by
  cases style with
  | compact => simp [Style.lineBreak]
  | pretty =>
    simp only [Style.lineBreak, List.mem_cons, List.mem_replicate]
    rintro c (rfl | ⟨-, rfl⟩)
    · decide
    · decide

theorem valueWithin_append (h : ∀ c ∈ blanks, isSpace c = true) (room : ℕ) (text : List Char) :
    valueWithin room (blanks ++ text) = valueWithin room text := by
  cases room with
  | zero => rfl
  | succ room => rw [valueWithin, valueWithin, skip_append h]

/-- What stands behind a document ends a number in it. -/
theorem endsNumber_cons {c : Char} (h : c ∈ [',', ']', '\x7d', ' ', '\n', '\r', '\t'])
    (rest : List Char) : EndsNumber (c :: rest) := by
  rintro d hd
  obtain rfl : c = d := by simpa using hd
  simp only [List.mem_cons, List.not_mem_nil, or_false] at h
  rcases h with rfl | rfl | rfl | rfl | rfl | rfl | rfl <;> decide

theorem endsNumber_append (hblanks : ∀ c ∈ blanks, isSpace c = true) {c : Char}
    (h : c ∈ [']', '\x7d']) (rest : List Char) : EndsNumber (blanks ++ c :: rest) := by
  rcases blanks with - | ⟨d, blanks⟩
  · have hsubset : [']', '\x7d'] ⊆ [',', ']', '\x7d', ' ', '\n', '\r', '\t'] := by simp
    exact endsNumber_cons (hsubset h) rest
  · have hspace := hblanks d List.mem_cons_self
    refine endsNumber_cons ?_ _
    simp only [isSpace, Bool.or_eq_true, decide_eq_true_eq] at hspace
    simp only [List.mem_cons, List.not_mem_nil, or_false]
    tauto

theorem endsNumber_itemChars (style : Style) (level : ℕ) (items : List Json)
    (h : EndsNumber tail) : EndsNumber (itemChars style level items tail) := by
  cases items with
  | nil => rwa [itemChars]
  | cons item items =>
    rw [itemChars]
    exact endsNumber_cons (by simp) _

theorem endsNumber_fieldChars (style : Style) (level : ℕ) (fields : List (String × Json))
    (h : EndsNumber tail) : EndsNumber (fieldChars style level fields tail) := by
  cases fields with
  | nil => rwa [fieldChars]
  | cons field fields =>
    obtain ⟨key, value⟩ := field
    rw [fieldChars]
    exact endsNumber_cons (by simp) _

/-! ### First characters -/

/-- A number starts with none of the characters that start something else. -/
theorem not_mem_of_numberStart {c : Char} (h : c = '-' ∨ c.isDigit = true) :
    c ∉ [' ', '\n', '\r', '\t', '"', '[', ']', '\x7b', 'n', 't', 'f'] := by
  rintro hmem
  simp only [List.mem_cons, List.not_mem_nil, or_false] at hmem
  revert h
  rcases hmem with rfl | rfl | rfl | rfl | rfl | rfl | rfl | rfl | rfl | rfl | rfl <;> decide

theorem valueWithin_of_number? {result : Json × List Char} (h : number? text = some result)
    (room : ℕ) : valueWithin (room + 1) text = some result := by
  obtain ⟨c, rest, rfl, hc⟩ := exists_cons_of_number? h
  have hstart := not_mem_of_numberStart hc
  simp only [List.mem_cons, List.not_mem_nil, or_false, not_or] at hstart
  have hspace : isSpace c = false := by simp [isSpace, hstart]
  rw [valueWithin, skip_cons hspace]
  simp [hstart, h]

/-- A document starts neither with a blank nor with the bracket that closes an array. -/
theorem exists_chars_eq_cons (style : Style) (level : ℕ) (doc : Json) (htail : EndsNumber tail) :
    ∃ c rest, chars style level doc tail = c :: rest ∧ isSpace c = false ∧ c ≠ ']' := by
  have hnumber : ∀ {text : List Char} {result : Json × List Char}, number? text = some result →
      ∃ c rest, text = c :: rest ∧ isSpace c = false ∧ c ≠ ']' := by
    intro text result h
    obtain ⟨c, rest, rfl, hc⟩ := exists_cons_of_number? h
    have hstart := not_mem_of_numberStart hc
    simp only [List.mem_cons, List.not_mem_nil, or_false, not_or] at hstart
    exact ⟨c, rest, rfl, by simp [isSpace, hstart], by simp [hstart]⟩
  rcases doc with - | (- | -) | n | x | text | (- | ⟨item, items⟩) | (- | ⟨⟨key, value⟩, fields⟩)
  · exact ⟨_, _, rfl, by decide, by decide⟩
  · exact ⟨_, _, rfl, by decide, by decide⟩
  · exact ⟨_, _, rfl, by decide, by decide⟩
  · exact hnumber (number?_integer n htail)
  · exact hnumber (number?_text x htail)
  · exact ⟨_, _, rfl, by decide, by decide⟩
  · exact ⟨_, _, rfl, by decide, by decide⟩
  · exact ⟨_, _, rfl, by decide, by decide⟩
  · exact ⟨_, _, rfl, by decide, by decide⟩
  · exact ⟨_, _, rfl, by decide, by decide⟩

/-! ### Documents -/

theorem valueWithin_string (value : String) (room : ℕ) (tail : List Char) :
    valueWithin (room + 1) (quoted value tail) = some (.string value, tail) := by
  rw [quoted, valueWithin, skip_cons (by decide)]
  dsimp only
  rw [if_pos rfl, stringBody?_quoted, Option.map_some, String.ofList_toList]

/-- An array is read by its items, if what stands behind the bracket does not close it. -/
theorem valueWithin_array {items : List Json} (hblanks : ∀ c ∈ blanks, isSpace c = true)
    (hfirst : ∃ c rest, text = c :: rest ∧ isSpace c = false ∧ c ≠ ']')
    (h : itemsWithin room text = some (items, tail)) :
    valueWithin (room + 1) ('[' :: (blanks ++ text)) = some (.array items, tail) := by
  obtain ⟨c, rest, rfl, hspace, hclose⟩ := hfirst
  rw [valueWithin, skip_cons (by decide)]
  dsimp only
  rw [if_neg (by decide), if_pos rfl, skip_append hblanks, skip_cons hspace]
  split
  · next heq => exact absurd (List.cons_eq_cons.mp heq).1 hclose
  · rw [h, Option.map_some]

/-- An object is read by its fields, which start with a quote. -/
theorem valueWithin_object {fields : List (String × Json)}
    (hblanks : ∀ c ∈ blanks, isSpace c = true)
    (h : fieldsWithin room ('"' :: text) = some (fields, tail)) :
    valueWithin (room + 1) ('\x7b' :: (blanks ++ '"' :: text)) = some (.object fields, tail) := by
  rw [valueWithin, skip_cons (by decide)]
  dsimp only
  rw [if_neg (by decide), if_neg (by decide), if_pos rfl, skip_append hblanks,
    skip_cons (by decide)]
  change (fieldsWithin room ('"' :: text)).map _ = _
  rw [h, Option.map_some]

/-- The items behind one that is read. -/
theorem itemsWithin_of_comma {item : Json} {items : List Json}
    (hitem : valueWithin room text = some (item, ',' :: rest))
    (h : itemsWithin room rest = some (items, tail)) :
    itemsWithin (room + 1) text = some (item :: items, tail) := by
  rw [itemsWithin, hitem]
  dsimp only
  rw [skip_cons (by decide)]
  change (itemsWithin room rest).map _ = _
  rw [h, Option.map_some]

theorem itemsWithin_of_close {item : Json} (hblanks : ∀ c ∈ blanks, isSpace c = true)
    (hitem : valueWithin room text = some (item, blanks ++ ']' :: tail)) :
    itemsWithin (room + 1) text = some ([item], tail) := by
  rw [itemsWithin, hitem]
  dsimp only
  rw [skip_append hblanks, skip_cons (by decide)]
  rfl

/-- A key is read up to the value behind its colon. -/
theorem exists_key (hblanks : ∀ c ∈ blanks, isSpace c = true) (style : Style) (key : String)
    (text : List Char) :
    ∃ body spaces, skip (blanks ++ quoted key (style.colon ++ text)) = '"' :: body ∧
      stringBody? body = some (key.toList, ':' :: (spaces ++ text)) ∧
      ∀ c ∈ spaces, isSpace c = true := by
  have hcolon : ∃ spaces, style.colon ++ text = ':' :: (spaces ++ text) ∧
      ∀ c ∈ spaces, isSpace c = true := by
    cases style with
    | compact => exact ⟨[], rfl, by simp⟩
    | pretty => exact ⟨[' '], rfl, by simp [isSpace]⟩
  obtain ⟨spaces, hcolon, hspaces⟩ := hcolon
  have hkey := stringBody?_quoted key.toList (style.colon ++ text)
  nth_rewrite 2 [hcolon] at hkey
  refine ⟨_, spaces, ?_, hkey, hspaces⟩
  rw [skip_append hblanks, quoted, skip_cons (by decide)]

/-- The fields behind one of which the value is read. -/
theorem fieldsWithin_of_comma {value : Json} {fields : List (String × Json)}
    (hblanks : ∀ c ∈ blanks, isSpace c = true) (style : Style) (key : String)
    (hvalue : valueWithin room text = some (value, ',' :: rest))
    (h : fieldsWithin room rest = some (fields, tail)) :
    fieldsWithin (room + 1) (blanks ++ quoted key (style.colon ++ text)) =
      some ((key, value) :: fields, tail) := by
  obtain ⟨body, spaces, hquote, hkey, hspaces⟩ := exists_key hblanks style key text
  have hskip : skip (':' :: (spaces ++ text)) = ':' :: (spaces ++ text) := skip_cons (by decide) _
  have hcomma : skip (',' :: rest) = ',' :: rest := skip_cons (by decide) _
  simp only [fieldsWithin, hquote, hkey, hskip, valueWithin_append hspaces, hvalue, hcomma, h,
    Option.map_some, String.ofList_toList]

theorem fieldsWithin_of_close {before : List Char} {value : Json}
    (hbefore : ∀ c ∈ before, isSpace c = true) (hblanks : ∀ c ∈ blanks, isSpace c = true)
    (style : Style) (key : String)
    (hvalue : valueWithin room text = some (value, blanks ++ '\x7d' :: tail)) :
    fieldsWithin (room + 1) (before ++ quoted key (style.colon ++ text)) =
      some ([(key, value)], tail) := by
  obtain ⟨body, spaces, hquote, hkey, hspaces⟩ := exists_key hbefore style key text
  have hskip : skip (':' :: (spaces ++ text)) = ':' :: (spaces ++ text) := skip_cons (by decide) _
  have hclose : skip (blanks ++ '\x7d' :: tail) = '\x7d' :: tail := by
    rw [skip_append hblanks, skip_cons (by decide)]
  simp only [fieldsWithin, hquote, hkey, hskip, valueWithin_append hspaces, hvalue, hclose,
    String.ofList_toList]

end Reader

/-! ### How many steps a document takes -/

mutual

/-- The steps of nesting and succession that a document takes to read. -/
def steps : Json → ℕ
  | .array items => itemSteps items + 1
  | .object fields => fieldSteps fields + 1
  | _ => 1

/-- The steps that the items of an array take. -/
def itemSteps : List Json → ℕ
  | [] => 0
  | item :: items => max (steps item) (itemSteps items) + 1

/-- The steps that the fields of an object take. -/
def fieldSteps : List (String × Json) → ℕ
  | [] => 0
  | (_, value) :: fields => max (steps value) (fieldSteps fields) + 1

end

namespace Reader

mutual

/-- **The text of a document is read as the document**, and what stands behind it is left. -/
theorem valueWithin_chars (style : Style) : ∀ (doc : Json) (level room : ℕ) {tail : List Char},
    doc.steps ≤ room → EndsNumber tail →
      valueWithin room (chars style level doc tail) = some (doc, tail)
  | .null, _, room + 1, _, _, _ => rfl
  | .bool true, _, room + 1, _, _, _ => rfl
  | .bool false, _, room + 1, _, _, _ => rfl
  | .int n, _, room + 1, _, _, htail => valueWithin_of_number? (number?_integer n htail) room
  | .real x, _, room + 1, _, _, htail => valueWithin_of_number? (number?_text x htail) room
  | .string value, _, room + 1, tail, _, _ => valueWithin_string value room tail
  | .array [], _, room + 1, _, _, _ => rfl
  | .array (item :: items), level, room, tail, hroom, _ => by
    rw [steps, itemSteps] at hroom
    obtain ⟨room, rfl⟩ : ∃ r, room = r + 2 := ⟨room - 2, by omega⟩
    have hend := endsNumber_itemChars style (level + 1) items
      (endsNumber_append (isSpace_lineBreak style level) (by simp : ']' ∈ [']', '\x7d']) tail)
    have hitem := valueWithin_chars style item (level + 1) room (by omega) hend
    exact valueWithin_array (isSpace_lineBreak style _)
      (exists_chars_eq_cons style (level + 1) item hend)
      (itemsWithin_itemChars style items (level + 1) (isSpace_lineBreak style level) (by omega)
        hitem)
  | .object [], _, room + 1, _, _, _ => rfl
  | .object ((key, value) :: fields), level, room, tail, hroom, _ => by
    rw [steps, fieldSteps] at hroom
    obtain ⟨room, rfl⟩ : ∃ r, room = r + 2 := ⟨room - 2, by omega⟩
    have hend := endsNumber_fieldChars style (level + 1) fields
      (endsNumber_append (isSpace_lineBreak style level) (by simp : '\x7d' ∈ [']', '\x7d']) tail)
    have hvalue := valueWithin_chars style value (level + 1) room (by omega) hend
    exact valueWithin_object (isSpace_lineBreak style _)
      (fieldsWithin_fieldChars style fields (level + 1) key (List.forall_mem_nil _)
        (isSpace_lineBreak style level) (by omega) hvalue)

/-- The items behind one that is read, up to the bracket. -/
theorem itemsWithin_itemChars (style : Style) : ∀ (items : List Json) (level : ℕ) {room : ℕ}
    {first : Json} {text blanks tail : List Char}, (∀ c ∈ blanks, isSpace c = true) →
      itemSteps items ≤ room →
      valueWithin room text = some (first, itemChars style level items (blanks ++ ']' :: tail)) →
      itemsWithin (room + 1) text = some (first :: items, tail)
  | [], _, _, _, _, _, _, hblanks, _, hfirst => itemsWithin_of_close hblanks hfirst
  | item :: items, level, room, first, text, blanks, tail, hblanks, hroom, hfirst => by
    rw [itemSteps] at hroom
    obtain ⟨room, rfl⟩ : ∃ r, room = r + 1 := ⟨room - 1, by omega⟩
    have hend := endsNumber_itemChars style level items
      (endsNumber_append hblanks (by simp : ']' ∈ [']', '\x7d']) tail)
    have hitem := valueWithin_chars style item level room (by omega) hend
    rw [← valueWithin_append (isSpace_lineBreak style level)] at hitem
    exact itemsWithin_of_comma hfirst
      (itemsWithin_itemChars style items level hblanks (by omega) hitem)

/-- The fields behind one of which the value is read, up to the brace. -/
theorem fieldsWithin_fieldChars (style : Style) : ∀ (fields : List (String × Json)) (level : ℕ)
    {room : ℕ} {value : Json} {before text blanks tail : List Char} (key : String),
      (∀ c ∈ before, isSpace c = true) → (∀ c ∈ blanks, isSpace c = true) →
      fieldSteps fields ≤ room →
      valueWithin room text =
        some (value, fieldChars style level fields (blanks ++ '\x7d' :: tail)) →
      fieldsWithin (room + 1) (before ++ quoted key (style.colon ++ text)) =
        some ((key, value) :: fields, tail)
  | [], _, _, _, _, _, _, _, key, hbefore, hblanks, _, hvalue =>
    fieldsWithin_of_close hbefore hblanks style key hvalue
  | (nextKey, nextValue) :: fields, level, room, value, before, text, blanks, tail, key, hbefore,
      hblanks, hroom, hvalue => by
    rw [fieldSteps] at hroom
    obtain ⟨room, rfl⟩ : ∃ r, room = r + 1 := ⟨room - 1, by omega⟩
    have hend := endsNumber_fieldChars style level fields
      (endsNumber_append hblanks (by simp : '\x7d' ∈ [']', '\x7d']) tail)
    have hnext := valueWithin_chars style nextValue level room (by omega) hend
    have hfields := fieldsWithin_fieldChars style fields level nextKey
      (isSpace_lineBreak style level) hblanks (by omega) hnext
    exact fieldsWithin_of_comma hbefore style key hvalue hfields

end

end Reader

/-! ### Room for the steps -/

theorem length_quoted_le (value : String) (tail : List Char) :
    tail.length + 2 ≤ (quoted value tail).length := by
  have hfold : ∀ text : List Char,
      tail.length + 1 ≤ (text.foldr (fun c rest => escaped c ++ rest) ('"' :: tail)).length := by
    intro text
    induction text with
    | nil => simp
    | cons c text ih =>
      rw [List.foldr_cons, List.length_append]
      omega
  have htext := hfold value.toList
  rw [quoted, List.length_cons]
  omega

/-- The text of a number is not empty. -/
theorem length_pos_of_number? {text : List Char} {result : Json × List Char}
    (h : Reader.number? (text ++ []) = some result) : 0 < text.length := by
  obtain ⟨c, rest, htext, -⟩ := Reader.exists_cons_of_number? h
  rw [List.append_nil] at htext
  rw [htext]
  exact Nat.succ_pos _

mutual

/-- **A document takes no more steps than its text has characters.** -/
theorem steps_add_length_le (style : Style) : ∀ (doc : Json) (level : ℕ) (tail : List Char),
    doc.steps + tail.length ≤ (chars style level doc tail).length
  | .null, _, _ => by simp only [steps, chars, List.length_cons]; omega
  | .bool true, _, _ => by simp only [steps, chars, List.length_cons]; omega
  | .bool false, _, _ => by simp only [steps, chars, List.length_cons]; omega
  | .int n, _, tail => by
    have hpos := length_pos_of_number? (Reader.number?_integer n Reader.endsNumber_nil)
    simp only [steps, chars, List.length_append]
    omega
  | .real x, _, tail => by
    have hpos := length_pos_of_number? (Reader.number?_text x Reader.endsNumber_nil)
    simp only [steps, chars, List.length_append]
    omega
  | .string value, _, tail => by
    have htext := length_quoted_le value tail
    simp only [steps, chars]
    omega
  | .array [], _, _ => by simp only [steps, itemSteps, chars, List.length_cons]; omega
  | .array (item :: items), level, tail => by
    have hitems := itemSteps_add_length_le style items (level + 1)
      (style.lineBreak level ++ ']' :: tail)
    have hitem := steps_add_length_le style item (level + 1)
      (itemChars style (level + 1) items (style.lineBreak level ++ ']' :: tail))
    simp only [List.length_append, List.length_cons] at hitems
    simp only [steps, itemSteps, chars, List.length_append, List.length_cons]
    omega
  | .object [], _, _ => by simp only [steps, fieldSteps, chars, List.length_cons]; omega
  | .object ((key, value) :: fields), level, tail => by
    have hfields := fieldSteps_add_length_le style fields (level + 1)
      (style.lineBreak level ++ '\x7d' :: tail)
    have hvalue := steps_add_length_le style value (level + 1)
      (fieldChars style (level + 1) fields (style.lineBreak level ++ '\x7d' :: tail))
    have hkey := length_quoted_le key (style.colon ++ chars style (level + 1) value
      (fieldChars style (level + 1) fields (style.lineBreak level ++ '\x7d' :: tail)))
    simp only [List.length_append, List.length_cons] at hfields hkey
    simp only [steps, fieldSteps, chars, List.length_append, List.length_cons]
    omega

theorem itemSteps_add_length_le (style : Style) : ∀ (items : List Json) (level : ℕ)
    (tail : List Char), itemSteps items + tail.length ≤ (itemChars style level items tail).length
  | [], _, _ => by simp only [itemSteps, itemChars]; omega
  | item :: items, level, tail => by
    have hitems := itemSteps_add_length_le style items level tail
    have hitem := steps_add_length_le style item level (itemChars style level items tail)
    simp only [itemSteps, itemChars, List.length_append, List.length_cons]
    omega

theorem fieldSteps_add_length_le (style : Style) : ∀ (fields : List (String × Json)) (level : ℕ)
    (tail : List Char),
      fieldSteps fields + tail.length ≤ (fieldChars style level fields tail).length
  | [], _, _ => by simp only [fieldSteps, fieldChars]; omega
  | (key, value) :: fields, level, tail => by
    have hfields := fieldSteps_add_length_le style fields level tail
    have hvalue := steps_add_length_le style value level (fieldChars style level fields tail)
    have hkey := length_quoted_le key
      (style.colon ++ chars style level value (fieldChars style level fields tail))
    simp only [List.length_append] at hkey
    simp only [fieldSteps, fieldChars, List.length_append, List.length_cons]
    omega

end

theorem value?_print (style : Style) (doc : Json) :
    Reader.value? (print style doc).toList = some (doc, []) := by
  have hroom := steps_add_length_le style doc 0 []
  rw [List.length_nil, Nat.add_zero] at hroom
  rw [Reader.value?, print, String.toList_ofList]
  exact Reader.valueWithin_chars style doc 0 _ (by omega) Reader.endsNumber_nil

/-- **The text of a document, in either style, is read as the document**, unless it is nested too
deep. -/
theorem parse?_print (style : Style) (doc : Json) :
    parse? (print style doc) = if doc.depth < nestingLimit then some doc else none := by
  have hrest : Reader.skip [] = [] := rfl
  simp only [parse?, value?_print, hrest, true_and]

theorem parse?_print_of_lt {doc : Json} (h : doc.depth < nestingLimit) (style : Style) :
    parse? (print style doc) = some doc := by
  rw [parse?_print, if_pos h]

/-- What a document is read as comes back from its text, unless the document is nested too deep. -/
theorem bind_parse?_print {α : Type} {read : Json → Option α} {doc : Json} {x : α}
    (h : read doc = some x) (style : Style) :
    (parse? (print style doc)).bind read = if doc.depth < nestingLimit then some x else none := by
  rw [parse?_print]
  split_ifs
  · exact h
  · rfl

/-! ### How deep lists are nested -/

theorem itemDepth_map_le {α : Type} {write : α → Json} {bound : ℕ}
    (h : ∀ x, (write x).depth ≤ bound) (items : List α) :
    itemDepth (items.map write) ≤ bound := by
  induction items with
  | nil => exact Nat.zero_le bound
  | cons item items ih => exact Nat.max_le.mpr ⟨h item, ih⟩

theorem depth_array_le {α : Type} {write : α → Json} {bound : ℕ}
    (h : ∀ x, (write x).depth ≤ bound) (items : List α) :
    (array (items.map write)).depth ≤ bound + 1 := Nat.succ_le_succ (itemDepth_map_le h items)

/-! ### No line breaks in the compact style -/

theorem newline_not_mem_escaped (c : Char) : '\n' ∉ escaped c := by
  have hhex : ∀ n < 16, '\n' ≠ hexDigit n := by decide
  rw [escaped]
  split_ifs with _ _ hnewline _ _ _ _ hcontrol
  · decide
  · decide
  · decide
  · decide
  · decide
  · decide
  · decide
  · simp [hhex (c.toNat / 16) (by omega), hhex (c.toNat % 16) (by omega)]
  · simpa using Ne.symm hnewline

theorem newline_not_mem_quoted {tail : List Char} (h : '\n' ∉ tail) (value : String) :
    '\n' ∉ quoted value tail := by
  have hfold : ∀ text : List Char,
      '\n' ∉ text.foldr (fun c rest => escaped c ++ rest) ('"' :: tail) := by
    intro text
    induction text with
    | nil => simpa using h
    | cons c text ih =>
      rw [List.foldr_cons, List.mem_append, not_or]
      exact ⟨newline_not_mem_escaped c, ih⟩
  simpa [quoted] using hfold value.toList

mutual

theorem newline_not_mem_chars : ∀ (doc : Json) (level : ℕ) {tail : List Char}, '\n' ∉ tail →
    '\n' ∉ chars .compact level doc tail
  | .null, _, _, h => by simpa [chars] using h
  | .bool true, _, _, h => by simpa [chars] using h
  | .bool false, _, _, h => by simpa [chars] using h
  | .int n, _, _, h => by
    rw [chars, List.mem_append, not_or]
    exact ⟨newline_not_mem_integer n, h⟩
  | .real x, _, _, h => by
    rw [chars, List.mem_append, not_or]
    exact ⟨newline_not_mem_text x, h⟩
  | .string value, _, _, h => by
    rw [chars]
    exact newline_not_mem_quoted h value
  | .array [], _, _, h => by simpa [chars] using h
  | .array (item :: items), level, tail, h => by
    have hclose : '\n' ∉ ']' :: tail := by simpa using h
    have hitem := newline_not_mem_chars item (level + 1)
      (newline_not_mem_itemChars items (level + 1) hclose)
    simpa [chars, Style.lineBreak] using hitem
  | .object [], _, _, h => by simpa [chars] using h
  | .object ((key, value) :: fields), level, tail, h => by
    have hclose : '\n' ∉ '\x7d' :: tail := by simpa using h
    have hvalue := newline_not_mem_chars value (level + 1)
      (newline_not_mem_fieldChars fields (level + 1) hclose)
    have hcolon : '\n' ∉ ':' :: chars .compact (level + 1) value
        (fieldChars .compact (level + 1) fields ('\x7d' :: tail)) := by simpa using hvalue
    simpa [chars, Style.lineBreak, Style.colon] using newline_not_mem_quoted hcolon key

theorem newline_not_mem_itemChars : ∀ (items : List Json) (level : ℕ) {tail : List Char},
    '\n' ∉ tail → '\n' ∉ itemChars .compact level items tail
  | [], _, _, h => by rwa [itemChars]
  | item :: items, level, tail, h => by
    have hitem := newline_not_mem_chars item level (newline_not_mem_itemChars items level h)
    simpa [itemChars, Style.lineBreak] using hitem

theorem newline_not_mem_fieldChars : ∀ (fields : List (String × Json)) (level : ℕ)
    {tail : List Char}, '\n' ∉ tail → '\n' ∉ fieldChars .compact level fields tail
  | [], _, _, h => by rwa [fieldChars]
  | (key, value) :: fields, level, tail, h => by
    have hvalue := newline_not_mem_chars value level (newline_not_mem_fieldChars fields level h)
    have hcolon : '\n' ∉ ':' :: chars .compact level value
        (fieldChars .compact level fields tail) := by simpa using hvalue
    simpa [fieldChars, Style.lineBreak, Style.colon] using newline_not_mem_quoted hcolon key

end

/-- **The compact text of a document is one line.** -/
theorem newline_not_mem_print (doc : Json) : '\n' ∉ (print .compact doc).toList := by
  rw [print, String.toList_ofList]
  exact newline_not_mem_chars doc 0 List.not_mem_nil

end Json

end RegisterRules
