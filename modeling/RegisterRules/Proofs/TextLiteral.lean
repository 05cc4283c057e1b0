import Mathlib.Tactic.SplitIfs
import RegisterRules.Value

/-!
# Text literals of generated code

A text of a rule stands in generated code between quotes. Whoever reads the code takes a backslash
for the start of an escape and the first quote that is not escaped for the end of the literal, so a
text that was written as it is could end its literal early, or keep it from ending. The reader here
goes through a literal one character at a time and remembers only whether a backslash was in front.

## The one spelling of a text

What is written for a character is read as that character, whatever follows it
(`readQuoted?_escaped_append`). So the text comes back by induction, and the quote behind it is the
first that is not escaped, however many backslashes and quotes the text ends with.

The other way round, a character has two spellings at most, as it is and with a backslash. As it is,
a quote ends the literal and a backslash starts an escape, so only a newline, a carriage return or a
tab could be written in both ways, and a literal without these has no other spelling
(`exists_eq_of_readQuoted?`).

## Main definitions

* `Text.Flat`: a text without newlines, carriage returns and tabs.
* `Value.readLiteral?`: what a literal at the front of a text stands for, and what follows it.

## Main results

* `Value.flat_quoted`: a literal has no raw newlines, carriage returns and tabs.
* `Value.eq_literal_iff`: the literal of a text is the one flat spelling that is read as the text.
-/

namespace RegisterRules

/-! ### Flat texts -/

namespace Text

/-- A text without newlines, carriage returns and tabs. -/
def Flat (text : List Char) : Prop := ∀ c ∈ text, c ≠ '\n' ∧ c ≠ '\r' ∧ c ≠ '\t'

variable {c : Char} {text more : List Char}

@[simp] theorem flat_nil : Flat [] := by simp [Flat]

@[simp] theorem flat_cons :
    Flat (c :: text) ↔ (c ≠ '\n' ∧ c ≠ '\r' ∧ c ≠ '\t') ∧ Flat text := List.forall_mem_cons

@[simp] theorem flat_append : Flat (text ++ more) ↔ Flat text ∧ Flat more :=
  List.forall_mem_append

end Text

open Text

namespace Value

theorem flat_escaped (c : Char) : Flat (escaped c) := by
  rw [escaped]
  split_ifs with _ _ hline hreturn htab
  all_goals try simp
  exact ⟨hline, hreturn, htab⟩

/-- The spelling of a text in generated code has no raw newlines, carriage returns and tabs. -/
theorem flat_quoted (s : String) : Flat (quoted s) := by
  have hescaped : Flat (s.toList.flatMap escaped) := by
    intro c hc
    obtain ⟨d, -, hd⟩ := List.mem_flatMap.mp hc
    exact flat_escaped d c hd
  simpa [quoted] using hescaped

/-! ### Reading a literal -/

/-- The character that an escape stands for, by what is behind its backslash. -/
def meant? (c : Char) : Option Char :=
  if c = 'n' then some '\n'
  else if c = 'r' then some '\r'
  else if c = 't' then some '\t'
  else if c = '"' ∨ c = '\\' then some c
  else none

/-- Read a text literal behind its opening quote, up to the first quote that is not escaped: the
characters that it stands for, and what follows that quote. The flag says that the character is
escaped by a backslash in front of it. -/
def readQuoted? : Bool → List Char → Option (List Char × List Char)
  | _, [] => none
  | true, c :: behind =>
    (meant? c).bind fun meant =>
      (readQuoted? false behind).map fun read => (meant :: read.1, read.2)
  | false, c :: behind =>
    if c = '"' then some ([], behind)
    else if c = '\\' then readQuoted? true behind
    else (readQuoted? false behind).map fun read => (c :: read.1, read.2)

/-- Read a text literal at the front of a text: what it stands for, and what follows it. Nothing is
read if there is no opening quote, no closing one, or an escape without a meaning. -/
def readLiteral? (text : String) : Option (String × String) :=
  match text.toList with
  | '"' :: behind =>
    (readQuoted? false behind).map fun (chars, rest) => (String.ofList chars, String.ofList rest)
  | _ => none

variable {body chars rest : List Char}

/-- What is written for a character is read as that character. -/
theorem readQuoted?_escaped_append (c : Char) (h : readQuoted? false body = some (chars, rest)) :
    readQuoted? false (escaped c ++ body) = some (c :: chars, rest) := by
  rw [escaped]
  split_ifs with hbackslash hquote hline hreturn htab
  · simp [readQuoted?, meant?, h, hbackslash]
  · simp [readQuoted?, meant?, h, hquote]
  · simp [readQuoted?, meant?, h, hline]
  · simp [readQuoted?, meant?, h, hreturn]
  · simp [readQuoted?, meant?, h, htab]
  · simp [readQuoted?, h, hbackslash, hquote]

/-- A text literal gives its text back and ends where it ends. -/
theorem readQuoted?_flatMap_escaped (chars rest : List Char) :
    readQuoted? false (chars.flatMap escaped ++ '"' :: rest) = some (chars, rest) := by
  induction chars with
  | nil => rfl
  | cons c chars ih =>
    rw [List.flatMap_cons, List.append_assoc]
    exact readQuoted?_escaped_append c ih

theorem escaped_of_meant? {c d : Char} (h : meant? c = some d) : escaped d = ['\\', c] := by
  grind [meant?, escaped]

/-- A flat literal is written as what it stands for is written. If a backslash has been read, it
belongs to what is written. -/
theorem exists_eq_of_readQuoted? {escaping : Bool}
    (h : readQuoted? escaping body = some (chars, rest)) :
    ∃ written, body = written ++ '"' :: rest ∧
      (Flat written →
        (if escaping then '\\' :: written else written) = chars.flatMap escaped) := by
  fun_induction readQuoted? escaping body generalizing chars rest with
  | case1 => simp at h
  | case2 c behind ih =>
    obtain ⟨meant, hmeant, h⟩ := Option.bind_eq_some_iff.mp h
    obtain ⟨⟨chars', rest'⟩, hread, h⟩ := Option.map_eq_some_iff.mp h
    obtain ⟨rfl, rfl⟩ := Prod.mk.inj h
    obtain ⟨written, rfl, hwritten⟩ := ih hread
    refine ⟨c :: written, rfl, fun hflat => ?_⟩
    have hrest : written = chars'.flatMap escaped := by simpa using hwritten (flat_cons.mp hflat).2
    rw [List.flatMap_cons, escaped_of_meant? hmeant, ← hrest]
    rfl
  | case3 behind =>
    obtain ⟨rfl, rfl⟩ := Prod.mk.inj (Option.some.inj h)
    exact ⟨[], rfl, fun _ => rfl⟩
  | case4 behind hquote ih =>
    obtain ⟨written, rfl, hwritten⟩ := ih h
    exact ⟨'\\' :: written, rfl, fun hflat => hwritten (flat_cons.mp hflat).2⟩
  | case5 c behind hquote hbackslash ih =>
    obtain ⟨⟨chars', rest'⟩, hread, h⟩ := Option.map_eq_some_iff.mp h
    obtain ⟨rfl, rfl⟩ := Prod.mk.inj h
    obtain ⟨written, rfl, hwritten⟩ := ih hread
    refine ⟨c :: written, rfl, fun hflat => ?_⟩
    obtain ⟨hc, hflat⟩ := flat_cons.mp hflat
    have hplain : escaped c = [c] := by simp [escaped, hquote, hbackslash, hc]
    have hrest : written = chars'.flatMap escaped := by simpa using hwritten hflat
    rw [List.flatMap_cons, hplain, ← hrest]
    rfl

theorem readLiteral?_eq_some_iff {text s rest : String} :
    readLiteral? text = some (s, rest) ↔
      ∃ behind, text.toList = '"' :: behind ∧
        readQuoted? false behind = some (s.toList, rest.toList) := by
  rw [readLiteral?]
  split
  next behind htext =>
    have hread : ∀ read : List Char × List Char,
        (String.ofList read.1, String.ofList read.2) = (s, rest) ↔
          read = (s.toList, rest.toList) := by
      rintro ⟨chars, rest'⟩
      simp only [Prod.mk.injEq, ← String.toList_inj, String.toList_ofList]
    simp [htext, Option.map_eq_some_iff, hread]
  next hnone =>
    simp only [reduceCtorEq, false_iff]
    rintro ⟨behind, htext, -⟩
    exact hnone behind htext

/-- The literal of a text is the one spelling without raw newlines, carriage returns and tabs that
is read as the text and, in front of anything, ends where it ends. -/
theorem eq_literal_iff (s spelling rest : String) :
    spelling = (Value.text s).literal ↔
      readLiteral? (spelling ++ rest) = some (s, rest) ∧ Flat spelling.toList := by
  have hliteral : (Value.text s).literal.toList = quoted s := String.toList_ofList
  rw [readLiteral?_eq_some_iff, ← String.toList_inj, hliteral, String.toList_append]
  constructor
  · intro hspelling
    rw [hspelling]
    exact ⟨⟨s.toList.flatMap escaped ++ '"' :: rest.toList, by simp [quoted],
      readQuoted?_flatMap_escaped s.toList rest.toList⟩, flat_quoted s⟩
  · rintro ⟨⟨behind, hbehind, hread⟩, hflat⟩
    obtain ⟨written, rfl, hwritten⟩ := exists_eq_of_readQuoted? hread
    have hspelling : spelling.toList = '"' :: (written ++ ['"']) :=
      (List.append_left_inj rest.toList).mp (by simpa using hbehind)
    rw [hspelling] at hflat ⊢
    have hescaped : written = s.toList.flatMap escaped := by
      simpa using hwritten (flat_append.mp (flat_cons.mp hflat).2).1
    rw [quoted, ← hescaped]

-- a text of a backslash and a quote, which neither closes the literal nor keeps it open
example : readLiteral? "\"\\\\\\\"\" + x" = some ("\\\"", " + x") := by decide

end Value

end RegisterRules
