import RegisterRules.Json.Basic

/-!
# Reading JSON documents

The reader takes a text apart from the left. Each step returns the document it has read and the
text behind it; a text that is no document, or goes on after one, is refused.

A number with neither point nor exponent is a whole number of any size, except that `-0` is the
negative zero. Every other number is rounded to the nearest binary64 number.

Nesting has a limit: a document in which 128 arrays and objects or more stand one in another is
refused, well formed as it may be. The printer has no such limit, so it can write documents that the
reader does not take back.

## Main definitions

* `Json.Reader.stringBody?`: the rest of a string behind its opening quote.
* `Json.Reader.value?`: one document from the left.
* `Json.nestingLimit`: how deep a document may not be nested.
* `Json.parse?`: the document that a text holds.
-/

namespace RegisterRules

namespace Json

namespace Reader

/-- Whether a character may stand between the parts of a document. -/
def isSpace (c : Char) : Bool := c = ' ' || c = '\n' || c = '\r' || c = '\t'

/-- Drop blanks in front. -/
def skip (text : List Char) : List Char := text.dropWhile isSpace

/-! ### Strings -/

/-- The value of a hexadecimal digit, small or capital. -/
def hexValue? (c : Char) : Option Nat :=
  if '0' ≤ c ∧ c ≤ '9' then some (c.toNat - 48)
  else if 'a' ≤ c ∧ c ≤ 'f' then some (c.toNat - 87)
  else if 'A' ≤ c ∧ c ≤ 'F' then some (c.toNat - 55)
  else none

/-- The value of four hexadecimal digits. -/
def hexUnit? (a b c d : Char) : Option Nat := do
  return (((← hexValue? a) * 16 + (← hexValue? b)) * 16 + (← hexValue? c)) * 16 + (← hexValue? d)

/-- The character that a one-letter escape stands for. -/
def shortEscape? (c : Char) : Option Char :=
  if c = '"' then some '"'
  else if c = '\\' then some '\\'
  else if c = '/' then some '/'
  else if c = 'b' then some '\x08'
  else if c = 'f' then some '\x0c'
  else if c = 'n' then some '\n'
  else if c = 'r' then some '\r'
  else if c = 't' then some '\t'
  else none

/-- Whether a code unit opens a surrogate pair. -/
def isHigh (unit : Nat) : Bool := 0xD800 ≤ unit && unit < 0xDC00

/-- Whether a code unit closes a surrogate pair. -/
def isLow (unit : Nat) : Bool := 0xDC00 ≤ unit && unit < 0xE000

/-- The text of a string behind its opening quote, and what follows the closing one. -/
def stringBody? : List Char → Option (List Char × List Char)
  | [] => none
  | c :: rest =>
    if c = '"' then some ([], rest)
    else if c = '\\' then
      match rest with
      | [] => none
      | mark :: rest =>
        if mark = 'u' then
          match rest with
          | a :: b :: c :: d :: rest =>
            match hexUnit? a b c d with
            | none => none
            | some unit =>
              if isHigh unit then
                match rest with
                | '\\' :: 'u' :: a :: b :: c :: d :: rest =>
                  match hexUnit? a b c d with
                  | none => none
                  | some second =>
                    if isLow second then
                      (stringBody? rest).map fun (text, rest) =>
                        (Char.ofNat (0x10000 + (unit - 0xD800) * 0x400 + (second - 0xDC00)) :: text,
                          rest)
                    else none
                | _ => none
              else if isLow unit then none
              else (stringBody? rest).map fun (text, rest) => (Char.ofNat unit :: text, rest)
          | _ => none
        else
          match shortEscape? mark with
          | none => none
          | some meant => (stringBody? rest).map fun (text, rest) => (meant :: text, rest)
    else if c.toNat < 0x20 then none
    else (stringBody? rest).map fun (text, rest) => (c :: text, rest)

/-! ### Numbers -/

/-- The digits after a point, if there is one; then at least one digit is needed. -/
def fraction? : List Char → Option (List Char × List Char)
  | '.' :: rest =>
    match rest.takeWhile Char.isDigit with
    | [] => none
    | digits => some (digits, rest.dropWhile Char.isDigit)
  | rest => some ([], rest)

/-- The exponent behind its mark, if there is one; then at least one digit is needed. -/
def exponent? : List Char → Option (Option Int × List Char)
  | mark :: rest =>
    if mark = 'e' ∨ mark = 'E' then
      let (negative, rest) := Numeral.sign rest
      match rest.takeWhile Char.isDigit with
      | [] => none
      | digits =>
        let size : Int := Nat.ofDigitChars 10 digits 0
        some (some (if negative then -size else size), rest.dropWhile Char.isDigit)
    else some (none, mark :: rest)
  | [] => some (none, [])

/-- A number without its sign. -/
def unsigned? (negative : Bool) (text : List Char) : Option (Json × List Char) := do
  let whole := text.takeWhile Char.isDigit
  let rest := text.dropWhile Char.isDigit
  if whole = [] ∨ (whole.head? = some '0' ∧ whole ≠ ['0']) then none
  else
    let (fraction, rest) ← fraction? rest
    let (exponent, rest) ← exponent? rest
    if fraction = [] ∧ exponent = none then
      let size := Nat.ofDigitChars 10 whole 0
      if negative ∧ size = 0 then some (.real .negZero, rest)
      else some (.int (if negative then -(size : Int) else size), rest)
    else
      let value ← Binary64.ofDecimal? negative (Numeral.decimal whole fraction (exponent.getD 0))
      some (.real value, rest)

/-- A number. -/
def number? : List Char → Option (Json × List Char)
  | '-' :: rest => unsigned? true rest
  | text => unsigned? false text

/-! ### Documents -/

/-- A text behind the given word. -/
def after? (word : List Char) (text : List Char) : Option (List Char) :=
  if word.isPrefixOf text then some (text.drop word.length) else none

mutual

/-- One document from the left, with at most `room` steps of nesting and succession. -/
def valueWithin : Nat → List Char → Option (Json × List Char)
  | 0, _ => none
  | room + 1, text =>
    match skip text with
    | [] => none
    | c :: rest =>
      if c = '"' then
        (stringBody? rest).map fun (text, rest) => (.string (String.ofList text), rest)
      else if c = '[' then
        match skip rest with
        | ']' :: rest => some (.array [], rest)
        | rest => (itemsWithin room rest).map fun (items, rest) => (.array items, rest)
      else if c = '\x7b' then
        match skip rest with
        | '\x7d' :: rest => some (.object [], rest)
        | rest => (fieldsWithin room rest).map fun (fields, rest) => (.object fields, rest)
      else if c = 'n' then (after? ['u', 'l', 'l'] rest).map fun rest => (.null, rest)
      else if c = 't' then (after? ['r', 'u', 'e'] rest).map fun rest => (.bool true, rest)
      else if c = 'f' then (after? ['a', 'l', 's', 'e'] rest).map fun rest => (.bool false, rest)
      else number? (c :: rest)

/-- The items of an array, up to and with the bracket that closes it. -/
def itemsWithin : Nat → List Char → Option (List Json × List Char)
  | 0, _ => none
  | room + 1, text =>
    match valueWithin room text with
    | none => none
    | some (item, rest) =>
      match skip rest with
      | ',' :: rest => (itemsWithin room rest).map fun (items, rest) => (item :: items, rest)
      | ']' :: rest => some ([item], rest)
      | _ => none

/-- The fields of an object, up to and with the brace that closes it. -/
def fieldsWithin : Nat → List Char → Option (List (String × Json) × List Char)
  | 0, _ => none
  | room + 1, text =>
    match skip text with
    | '"' :: rest =>
      match stringBody? rest with
      | none => none
      | some (key, rest) =>
        match skip rest with
        | ':' :: rest =>
          match valueWithin room rest with
          | none => none
          | some (value, rest) =>
            match skip rest with
            | ',' :: rest =>
              (fieldsWithin room rest).map fun (fields, rest) =>
                ((String.ofList key, value) :: fields, rest)
            | '\x7d' :: rest => some ([(String.ofList key, value)], rest)
            | _ => none
        | _ => none
    | _ => none

end

/-- One document from the left and the text behind it. Every step takes a character, so the length
of the text leaves room for all of them. -/
def value? (text : List Char) : Option (Json × List Char) :=
  valueWithin (text.length + 1) text

end Reader

/-- The number of arrays and objects that may not stand one in another. -/
def nestingLimit : Nat := 128

/-- The document that a text holds. -/
def parse? (text : String) : Option Json :=
  match Reader.value? text.toList with
  | some (doc, rest) =>
    if Reader.skip rest = [] ∧ doc.depth < nestingLimit then some doc else none
  | none => none

end Json

end RegisterRules
