/-!
# Small and capital letters of the rule language

Keywords and the mark of a column reference are written in Russian letters, in any mixture of small
and capital ones. Only the thirty-two capitals from `А` to `Я` have a small letter that occurs in
them, so only these are changed.
-/

namespace RegisterRules

namespace Text

/-- The small letter of a Russian capital; every other character as it is. -/
def lower (c : Char) : Char :=
  if 0x410 ≤ c.toNat ∧ c.toNat ≤ 0x42F then Char.ofNat (c.toNat + 0x20) else c

end Text

end RegisterRules
