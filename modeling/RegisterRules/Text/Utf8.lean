/-!
# Texts as bytes

## Main definitions

* `Text.bytes`: the UTF-8 bytes of a text.
* `Text.ofBytes?`: the text of a byte sequence, if it is UTF-8.
* `Text.wholeCharacters`: the text of a byte sequence that may end inside a character.
-/

namespace RegisterRules

namespace Text

/-- The UTF-8 bytes of a text. -/
def bytes (text : String) : List UInt8 := text.toUTF8.data.toList

/-- The text that a byte sequence encodes. -/
def ofBytes? (bytes : List UInt8) : Option String := String.fromUTF8? ⟨bytes.toArray⟩

/-- The text of a byte sequence without the character that its end cuts off. A character has at
most four bytes, so at most three are dropped. -/
def wholeCharacters (bytes : List UInt8) : String :=
  ((List.range 4).findSome? fun n => ofBytes? (bytes.take (bytes.length - n))).getD ""

end Text

end RegisterRules
