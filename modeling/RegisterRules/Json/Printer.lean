import RegisterRules.Json.Basic
import RegisterRules.Number.Layout

/-!
# The text of a JSON document

One printer writes both styles. It asks the style for what stands between the items of an array or
an object, and between a key and its value; in the compact style that is nothing at all. Each part
is written in front of what follows it, so that no text is copied twice.

## Main definitions

* `Json.Style`: compact, or one item a line with two spaces of indentation for each level.
* `Json.quoted`: a string in quotes, its quotes, backslashes and control characters escaped.
* `Json.print`: the text of a document in a style.
-/

namespace RegisterRules

namespace Json

/-- How a document is spread over lines. -/
inductive Style where
  /-- No blanks and no line breaks. -/
  | compact
  /-- Each item on a line of its own. -/
  | pretty
deriving DecidableEq

/-- What comes before an item at a nesting level, and before the bracket that closes it. -/
def Style.lineBreak : Style → Nat → List Char
  | .compact, _ => []
  | .pretty, level => '\n' :: List.replicate (2 * level) ' '

/-- What stands between a key and its value. -/
def Style.colon : Style → List Char
  | .compact => [':']
  | .pretty => [':', ' ']

/-- A hexadecimal digit. -/
def hexDigit (n : Nat) : Char :=
  if n < 10 then Char.ofNat (48 + n) else Char.ofNat (87 + n)

/-- A character inside a string. Quotes, backslashes and control characters are escaped. -/
def escaped (c : Char) : List Char :=
  if c = '"' then ['\\', '"']
  else if c = '\\' then ['\\', '\\']
  else if c = '\n' then ['\\', 'n']
  else if c = '\r' then ['\\', 'r']
  else if c = '\t' then ['\\', 't']
  else if c = '\x08' then ['\\', 'b']
  else if c = '\x0c' then ['\\', 'f']
  else if c.toNat < 0x20 then
    ['\\', 'u', '0', '0', hexDigit (c.toNat / 16), hexDigit (c.toNat % 16)]
  else [c]

/-- A string in quotes, in front of `tail`. -/
def quoted (text : String) (tail : List Char) : List Char :=
  '"' :: text.toList.foldr (fun c rest => escaped c ++ rest) ('"' :: tail)

/-- A whole number. -/
def integer : Int → List Char
  | .ofNat n => Nat.toDigits 10 n
  | .negSucc n => '-' :: Nat.toDigits 10 (n + 1)

mutual

/-- The text of a document whose first character stands at a nesting level, in front of `tail`. -/
def chars (style : Style) (level : Nat) : Json → List Char → List Char
  | .null, tail => 'n' :: 'u' :: 'l' :: 'l' :: tail
  | .bool true, tail => 't' :: 'r' :: 'u' :: 'e' :: tail
  | .bool false, tail => 'f' :: 'a' :: 'l' :: 's' :: 'e' :: tail
  | .int n, tail => integer n ++ tail
  | .real x, tail => (x.text .document).toList ++ tail
  | .string text, tail => quoted text tail
  | .array [], tail => '[' :: ']' :: tail
  | .array (item :: items), tail =>
    '[' :: (style.lineBreak (level + 1) ++
      chars style (level + 1) item
        (itemChars style (level + 1) items (style.lineBreak level ++ ']' :: tail)))
  | .object [], tail => '\x7b' :: '\x7d' :: tail
  | .object ((key, value) :: fields), tail =>
    '\x7b' :: (style.lineBreak (level + 1) ++
      quoted key (style.colon ++
        chars style (level + 1) value
          (fieldChars style (level + 1) fields (style.lineBreak level ++ '\x7d' :: tail))))

/-- The items of an array after the first, each with the comma before it, in front of `tail`. -/
def itemChars (style : Style) (level : Nat) : List Json → List Char → List Char
  | [], tail => tail
  | item :: items, tail =>
    ',' :: (style.lineBreak level ++ chars style level item (itemChars style level items tail))

/-- The fields of an object after the first, each with the comma before it, in front of `tail`. -/
def fieldChars (style : Style) (level : Nat) : List (String × Json) → List Char → List Char
  | [], tail => tail
  | (key, value) :: fields, tail =>
    ',' :: (style.lineBreak level ++
      quoted key (style.colon ++
        chars style level value (fieldChars style level fields tail)))

end

/-- The text of a document. -/
def print (style : Style) (doc : Json) : String := String.ofList (chars style 0 doc [])

end Json

end RegisterRules
