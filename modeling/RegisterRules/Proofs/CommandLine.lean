import Mathlib.Data.List.Nodup
import RegisterRules.Command

/-!
# What arguments ask for

Each setting of the command can be spelled in a few ways: an option with its value behind an equals
sign or as the next argument, the file also behind its letter, a rule as it is or behind the mark
`--`. This module says what the spellings are and proves that the arguments ask for what they spell,
in any order, as long as nothing is said twice.

The arguments are read from the left, and what carries the induction is the state between two
settings: the arguments read so far are those that the settings so far make up (`given`). One more
setting that is new is added to it (`read_spells`), and one that was made already is the end
(`read_spells_again`).

## Main definitions

* `Command.Setting`, `Command.Setting.slot`: the settings, and what each is a setting of.
* `Command.Spells`, `Command.Ending`: the arguments that spell a setting, and what may stand behind
  the last of them.
* `Command.Follows`: a command does as settings say, and the usual where they say nothing.

## Main results

* `Command.parse_spells`: arguments ask for the command that their settings make up.
* `Command.parse_rule_and_file`, `Command.parse_spells_again`: rule and file exclude each other, and
  no setting is made twice.
-/

namespace RegisterRules

namespace Command

/-! ### Settings and their spellings -/

/-- What a setting is a setting of. -/
inductive Slot where
  | rule | file | name | indent | trace | json | pretty
deriving DecidableEq

/-- A setting of the command. -/
inductive Setting where
  | rule (text : String)
  | file (path : String)
  | name (text : String)
  | indent (width : ℕ)
  | trace
  | json
  | pretty
deriving DecidableEq

namespace Setting

/-- What a setting is a setting of. -/
def slot : Setting → Slot
  | .rule _ => .rule
  | .file _ => .file
  | .name _ => .name
  | .indent _ => .indent
  | .trace => .trace
  | .json => .json
  | .pretty => .pretty

/-- Whether a setting is among the arguments read so far. -/
def MadeIn (g : Given) : Setting → Prop
  | .rule text => g.rule = some text
  | .file path => g.file = some path
  | .name text => g.name = some text
  | .indent width => g.indent = some width
  | .trace => g.trace = true
  | .json => g.json = true
  | .pretty => g.pretty = true

/-- The arguments read so far with one more setting. -/
def add : Setting → Given → Given
  | .rule text, g => { g with rule := some text }
  | .file path, g => { g with file := some path }
  | .name text, g => { g with name := some text }
  | .indent width, g => { g with indent := some width }
  | .trace, g => { g with trace := true }
  | .json, g => { g with json := true }
  | .pretty, g => { g with pretty := true }

/-- What is wrong with a setting that was made before. -/
def again : Setting → Usage
  | .rule text => .extraArgument text
  | .file _ => .repeated "--file"
  | .name _ => .repeated "--procedure-name"
  | .indent _ => .repeated "--indent"
  | .trace => .repeated "--trace"
  | .json => .repeated "--json"
  | .pretty => .repeated "--pretty"

/-- A setting takes the place of what was set before, and leaves the rest as it is. -/
theorem madeIn_add (s t : Setting) (g : Given) :
    t.MadeIn (s.add g) ↔ if t.slot = s.slot then s = t else t.MadeIn g := by
  cases s <;> cases t <;> simp [MadeIn, add, slot]

end Setting

/-- A word that is no option: it starts with no hyphen, or is nothing but one. -/
def Plain (word : String) : Prop := word.toList.head? = some '-' → word = "-"

/-- The arguments that give a value to an option. -/
inductive Passes : List String → ValueOption → String → Prop
  | fileEquals (value : String) : Passes ["--file=" ++ value] .file value
  | file {value : String} (plain : Plain value) : Passes ["--file", value] .file value
  | shortEquals (value : String) : Passes ["-f=" ++ value] .file value
  | shortJoined {value : String} (joined : value.toList.head? ≠ some '=') (nonempty : value ≠ "") :
      Passes ["-f" ++ value] .file value
  | short {value : String} (plain : Plain value) : Passes ["-f", value] .file value
  | nameEquals (value : String) : Passes ["--procedure-name=" ++ value] .name value
  | name {value : String} (plain : Plain value) : Passes ["--procedure-name", value] .name value
  | indentEquals (value : String) : Passes ["--indent=" ++ value] .indent value
  | indent {value : String} (plain : Plain value) : Passes ["--indent", value] .indent value

/-- What the value of an option sets. A file has a name; an indentation is a number below `2 ^ 64`
in decimal digits, with or without a plus sign. -/
inductive Means : ValueOption → String → Setting → Prop
  | file {path : String} (nonempty : path ≠ "") : Means .file path (.file path)
  | name (text : String) : Means .name text (.name text)
  | indent {sign digits : List Char} (signed : sign = [] ∨ sign = ['+'])
      (nonempty : digits ≠ []) (decimal : ∀ c ∈ digits, c.isDigit = true)
      (small : Nat.ofDigitChars 10 digits 0 < UInt64.size) :
      Means .indent (String.ofList (sign ++ digits)) (.indent (Nat.ofDigitChars 10 digits 0))

/-- The arguments that spell a setting. -/
inductive Spells : List String → Setting → Prop
  | rule {text : String} (plain : Plain text) : Spells [text] (.rule text)
  | value {words : List String} {option : ValueOption} {value : String} {s : Setting}
      (passed : Passes words option value) (meaning : Means option value s) : Spells words s
  | trace : Spells ["--trace"] .trace
  | json : Spells ["--json"] .json
  | pretty : Spells ["--pretty"] .pretty

/-- What may stand behind all that, and the settings in it: the mark behind which nothing is an
option, and a rule of any form. -/
inductive Ending : List String → List Setting → Prop
  | nothing : Ending [] []
  | mark : Ending ["--"] []
  | rule (text : String) : Ending ["--", text] [.rule text]

/-- A command does as settings say, and the usual where they say nothing. -/
structure Follows (settings : List Setting) (c : Command) : Prop where
  rule : ∀ {text : String}, .rule text ∈ settings → c.source = .rule text
  file : ∀ {path : String}, .file path ∈ settings → c.source = .file path
  standardInput : .rule ∉ settings.map Setting.slot → .file ∉ settings.map Setting.slot →
    c.source = .standardInput
  name : ∀ {text : String}, .name text ∈ settings → c.settings.procedureName = text
  usualName : .name ∉ settings.map Setting.slot → c.settings.procedureName = "Validate"
  indent : ∀ {width : ℕ}, .indent width ∈ settings → c.settings.indentWidth = width
  usualIndent : .indent ∉ settings.map Setting.slot → c.settings.indentWidth = 4
  trace : c.trace = true ↔ .trace ∈ settings
  json : c.json = true ↔ .json ∈ settings
  pretty : c.pretty = true ↔ .pretty ∈ settings

/-! ### The settings made so far -/

/-- The arguments read so far are those that settings make up. -/
def Made (settings : List Setting) (g : Given) : Prop := ∀ t : Setting, t.MadeIn g ↔ t ∈ settings

theorem made_nil : Made [] {} := by
  intro t
  cases t <;> simp [Setting.MadeIn]

variable {settings : List Setting} {s : Setting} {g : Given}

/-- One more setting of what has not been set. -/
theorem Made.add (h : Made settings g) (hnew : s.slot ∉ settings.map Setting.slot) :
    Made (settings ++ [s]) (s.add g) := by
  intro t
  rw [Setting.madeIn_add, List.mem_append, List.mem_singleton]
  split_ifs with hslot
  · have hnot : t ∉ settings := fun ht => hnew (hslot ▸ List.mem_map_of_mem ht)
    rw [or_iff_right hnot, eq_comm]
  · have hne : t ≠ s := fun heq => hslot (heq ▸ rfl)
    rw [h t, or_iff_left hne]

/-- Whether there is a setting of a slot among the arguments read so far. -/
def Given.has (g : Given) : Slot → Bool
  | .rule => g.rule.isSome
  | .file => g.file.isSome
  | .name => g.name.isSome
  | .indent => g.indent.isSome
  | .trace => g.trace
  | .json => g.json
  | .pretty => g.pretty

theorem Setting.MadeIn.has (h : s.MadeIn g) : g.has s.slot = true := by
  cases s <;> simp_all [MadeIn, Given.has, slot]

theorem Given.exists_madeIn_of_has {k : Slot} (h : g.has k = true) :
    ∃ t : Setting, t.slot = k ∧ t.MadeIn g := by
  cases k with
  | rule => exact (Option.isSome_iff_exists.mp h).imp' Setting.rule fun _ hx => ⟨rfl, hx⟩
  | file => exact (Option.isSome_iff_exists.mp h).imp' Setting.file fun _ hx => ⟨rfl, hx⟩
  | name => exact (Option.isSome_iff_exists.mp h).imp' Setting.name fun _ hx => ⟨rfl, hx⟩
  | indent => exact (Option.isSome_iff_exists.mp h).imp' Setting.indent fun _ hx => ⟨rfl, hx⟩
  | trace => exact ⟨.trace, rfl, h⟩
  | json => exact ⟨.json, rfl, h⟩
  | pretty => exact ⟨.pretty, rfl, h⟩

theorem Made.has_iff (h : Made settings g) (k : Slot) :
    g.has k = true ↔ k ∈ settings.map Setting.slot := by
  rw [List.mem_map]
  constructor
  · intro hk
    obtain ⟨t, hslot, ht⟩ := Given.exists_madeIn_of_has hk
    exact ⟨t, (h t).mp ht, hslot⟩
  · rintro ⟨t, ht, rfl⟩
    exact ((h t).mpr ht).has

theorem Made.has_eq_false (h : Made settings g) {k : Slot} (hk : k ∉ settings.map Setting.slot) :
    g.has k = false := Bool.not_eq_true _ ▸ mt (h.has_iff k).mp hk

/-! ### Arguments by their form -/

theorem formOf_of_plain {word : String} (h : Plain word) : formOf word = .plain := by
  unfold formOf
  split
  · next heq => simp [Plain, heq, String.ext_iff] at h
  · next heq => simp [Plain, heq, String.ext_iff] at h
  · next heq => simp [Plain, heq, String.ext_iff] at h
  · rfl

theorem isValue_of_plain {word : String} (h : Plain word) : isValue word = true := by
  rw [isValue, formOf_of_plain h]

/-- Go on with the arguments behind a value, once it is set. -/
def setThen (g : Given) (option : ValueOption) (value : String) (rest : List String) :
    Except Usage Request :=
  match g.set option value with
  | .error e => .error e
  | .ok g => read g none rest

/-- Go on with the arguments behind a flag, unless it is a request of its own. -/
def raiseThen (g : Given) (flag : Flag) (rest : List String) : Except Usage Request :=
  match g.raise flag with
  | .error e => .error e
  | .ok (.inl g) => read g none rest
  | .ok (.inr request) => .ok request

variable {word name value : String} {option : ValueOption} {rest : List String}

/-- A plain argument is the value of the option before it. -/
theorem read_awaiting (h : Plain value) :
    read g (some option) (value :: rest) = setThen g option value rest := by
  rw [read]
  simp only [isValue_of_plain h, if_true]
  rfl

theorem read_long (hform : formOf word = .long name none)
    (hname : ValueOption.ofName? name = some option) :
    read g none (word :: rest) = read g (some option) rest := by
  rw [read]
  simp only [hform, hname]

theorem read_longEquals (hform : formOf word = .long name (some value))
    (hname : ValueOption.ofName? name = some option) :
    read g none (word :: rest) = setThen g option value rest := by
  rw [read]
  simp only [hform, hname]
  rfl

theorem read_short (hform : formOf word = .short 'f' []) :
    read g none (word :: rest) = read g (some .file) rest := by
  rw [read]
  simp only [hform, if_true]

theorem read_shortEquals (hform : formOf word = .short 'f' ('=' :: value.toList)) :
    read g none (word :: rest) = setThen g .file value rest := by
  rw [read]
  simp only [hform, if_true, String.ofList_toList]
  rfl

theorem read_shortJoined (hform : formOf word = .short 'f' value.toList)
    (hjoined : value.toList.head? ≠ some '=') (hnonempty : value ≠ "") :
    read g none (word :: rest) = setThen g .file value rest := by
  rw [read]
  simp only [hform, if_true]
  split
  · next heq => exact absurd (String.toList_eq_nil_iff.mp heq) hnonempty
  · next heq => simp [heq] at hjoined
  · rw [String.ofList_toList]
    rfl

theorem read_flag {flag : Flag} (hform : formOf word = .long name none)
    (hname : ValueOption.ofName? name = none) (hflag : Flag.ofName? name = some flag) :
    read g none (word :: rest) = raiseThen g flag rest := by
  rw [read]
  simp only [hform, hname, hflag]
  rfl

/-- **A value that is passed to an option is set.** -/
theorem read_passes {words : List String} (h : Passes words option value) :
    read g none (words ++ rest) = setThen g option value rest := by
  cases h with
  | fileEquals =>
    have hform : formOf ("--file=" ++ value) = .long "--file" (some value) := by simp [formOf]
    exact read_longEquals hform rfl
  | nameEquals =>
    have hform : formOf ("--procedure-name=" ++ value) = .long "--procedure-name" (some value) := by
      simp [formOf]
    exact read_longEquals hform rfl
  | indentEquals =>
    have hform : formOf ("--indent=" ++ value) = .long "--indent" (some value) := by simp [formOf]
    exact read_longEquals hform rfl
  | file hplain => exact (read_long rfl rfl).trans (read_awaiting hplain)
  | name hplain => exact (read_long rfl rfl).trans (read_awaiting hplain)
  | indent hplain => exact (read_long rfl rfl).trans (read_awaiting hplain)
  | shortEquals => exact read_shortEquals (by simp [formOf])
  | shortJoined hjoined hnonempty => exact read_shortJoined (by simp [formOf]) hjoined hnonempty
  | short hplain => exact (read_short rfl).trans (read_awaiting hplain)

/-! ### Settings -/

/-- The width that an indentation spells. -/
theorem indent?_of_digits {sign digits : List Char} (hsign : sign = [] ∨ sign = ['+'])
    (hne : digits ≠ []) (hdigits : ∀ c ∈ digits, c.isDigit = true)
    (hsmall : Nat.ofDigitChars 10 digits 0 < UInt64.size) :
    indent? (String.ofList (sign ++ digits)) = some (Nat.ofDigitChars 10 digits 0) := by
  have hdecimal : (Text.decimal? digits).filter (· < UInt64.size) =
      some (Nat.ofDigitChars 10 digits 0) := by
    rw [Text.decimal?, if_pos ⟨hne, List.all_eq_true.mpr hdigits⟩]
    simp [hsmall]
  rw [indent?, String.toList_ofList]
  rcases hsign with rfl | rfl
  · rw [List.nil_append]
    split
    · exact absurd (hdigits '+' (List.mem_cons_self ..)) (by decide)
    · exact hdecimal
  · exact hdecimal

/-- The value of an option makes its setting, unless there is one already. -/
theorem set_of_means (h : Means option value s) :
    g.set option value = if g.has s.slot then .error s.again else .ok (s.add g) := by
  cases h with
  | file hnonempty => simp only [Given.set, hnonempty, if_false]; rfl
  | name => rfl
  | indent hsign hne hdigits hsmall =>
    simp only [Given.set, indent?_of_digits hsign hne hdigits hsmall]
    rfl

/-- **One setting**: it is made, unless there is one already. -/
theorem read_spells {words : List String} (h : Spells words s) :
    read g none (words ++ rest) =
      if g.has s.slot then .error s.again else read (s.add g) none rest := by
  cases h with
  | @rule text hplain =>
    rw [List.singleton_append, read]
    simp only [formOf_of_plain hplain, Given.setRule]
    cases h : g.rule <;> simp [Setting.slot, Given.has, Setting.again, Setting.add, h]
  | value hpassed hmeaning =>
    rw [read_passes hpassed, setThen, set_of_means hmeaning]
    cases g.has s.slot <;> rfl
  | trace | json | pretty =>
    rw [List.singleton_append, read_flag rfl rfl rfl, raiseThen, Given.raise]
    simp only [Setting.slot, Given.has]
    split_ifs with hraised <;> simp [hraised, Setting.again, Setting.add]

/-! ### All arguments -/

variable {words : List (List String)} {before more : List Setting} {last : List String}

/-- Settings of different slots are made one after the other. -/
theorem read_flatten (h : List.Forall₂ Spells words settings) (hmade : Made before g)
    (honce : ((before ++ settings).map Setting.slot).Nodup) (rest : List String) :
    ∃ g', read g none (words.flatten ++ rest) = read g' none rest ∧
      Made (before ++ settings) g' := by
  induction h generalizing before g with
  | nil => exact ⟨g, rfl, by rwa [List.append_nil]⟩
  | @cons word s words settings hword _ ih =>
    rw [List.append_cons] at honce ⊢
    have hnew : s.slot ∉ before.map Setting.slot := by
      rw [List.map_append, List.map_append, List.append_assoc] at honce
      exact fun hmem => List.disjoint_of_nodup_append honce hmem (by simp)
    obtain ⟨g', hread, hmade'⟩ := ih (hmade.add hnew) honce
    refine ⟨g', ?_, hmade'⟩
    rw [List.flatten_cons, List.append_assoc, read_spells hword, hmade.has_eq_false hnew]
    exact hread

/-- What stands behind the settings ends the arguments. -/
theorem read_ending (h : Ending last more) (hmade : Made settings g)
    (honce : ((settings ++ more).map Setting.slot).Nodup) :
    ∃ g', read g none last = g'.request ∧ Made (settings ++ more) g' := by
  cases h with
  | nothing => exact ⟨g, rfl, by rwa [List.append_nil]⟩
  | mark => exact ⟨g, rfl, by rwa [List.append_nil]⟩
  | rule text =>
    have hnew : Slot.rule ∉ settings.map Setting.slot := by
      rw [List.map_append] at honce
      exact fun hmem => List.disjoint_of_nodup_append honce hmem (by simp [Setting.slot])
    have hrule : g.rule.isSome = false := hmade.has_eq_false hnew
    refine ⟨_, ?_, hmade.add hnew⟩
    have hform : formOf "--" = .separator := rfl
    rw [read]
    simp only [hform, readPlain, Given.setRule, hrule]
    rfl

/-- The command of arguments that name one source, or none for standard input. -/
theorem follows_of_made {source : Source} (hmade : Made settings g)
    (hrule : ∀ text, .rule text ∈ settings → source = .rule text)
    (hfile : ∀ path, .file path ∈ settings → source = .file path)
    (hnone : .rule ∉ settings.map Setting.slot → .file ∉ settings.map Setting.slot →
      source = .standardInput) :
    Follows settings ⟨source,
      { procedureName := g.name.getD "Validate", indentWidth := g.indent.getD 4 },
      g.trace, g.json, g.pretty⟩ where
  rule h := hrule _ h
  file h := hfile _ h
  standardInput := hnone
  name := fun {text} h => by
    have hname : g.name = some text := (hmade (.name text)).mpr h
    simp [hname]
  usualName h := by
    have hname : g.name.isSome = false := hmade.has_eq_false h
    simp_all
  indent := fun {width} h => by
    have hindent : g.indent = some width := (hmade (.indent width)).mpr h
    simp [hindent]
  usualIndent h := by
    have hindent : g.indent.isSome = false := hmade.has_eq_false h
    simp_all
  trace := hmade .trace
  json := hmade .json
  pretty := hmade .pretty

/-- Settings that do not name both a rule and a file make up a command. -/
theorem exists_request_of_made (hmade : Made settings g)
    (hsource : .rule ∉ settings.map Setting.slot ∨ .file ∉ settings.map Setting.slot) :
    ∃ c, g.request = .ok (.compile c) ∧ Follows settings c := by
  have hrule : ∀ text, .rule text ∈ settings → g.rule = some text := fun text =>
    (hmade (.rule text)).mpr
  have hfile : ∀ path, .file path ∈ settings → g.file = some path := fun path =>
    (hmade (.file path)).mpr
  have hhasRule : g.rule.isSome = true ↔ .rule ∈ settings.map Setting.slot := hmade.has_iff .rule
  have hhasFile : g.file.isSome = true ↔ .file ∈ settings.map Setting.slot := hmade.has_iff .file
  rw [Given.request]
  rcases hr : g.rule with - | text <;> rcases hf : g.file with - | path
  · refine ⟨_, rfl, follows_of_made hmade ?_ ?_ fun _ _ => rfl⟩
    · intro text h
      simp [hrule text h] at hr
    · intro path h
      simp [hfile path h] at hf
  · refine ⟨_, rfl, follows_of_made hmade ?_ ?_ ?_⟩
    · intro text h
      simp [hrule text h] at hr
    · intro other h
      simpa [hfile other h, eq_comm] using hf
    · intro _ h
      exact absurd (hhasFile.mp (by simp [hf])) h
  · refine ⟨_, rfl, follows_of_made hmade ?_ ?_ ?_⟩
    · intro other h
      simpa [hrule other h, eq_comm] using hr
    · intro path h
      simp [hfile path h] at hf
    · intro h
      exact absurd (hhasRule.mp (by simp [hr])) h
  · exact absurd hsource (by simp [← hhasRule, ← hhasFile, hr, hf])

/-- The arguments up to their end make up the settings that they spell. -/
theorem exists_parse_eq_request (hwords : List.Forall₂ Spells words settings)
    (hlast : Ending last more) (honce : ((settings ++ more).map Setting.slot).Nodup) :
    ∃ g, parse (words.flatten ++ last) = g.request ∧ Made (settings ++ more) g := by
  have hfirst : (([] ++ settings).map Setting.slot).Nodup := by
    rw [List.map_append] at honce
    exact honce.of_append_left
  obtain ⟨g, hread, hmade⟩ := read_flatten hwords made_nil hfirst last
  obtain ⟨g', hread', hmade'⟩ := read_ending hlast hmade honce
  exact ⟨g', hread.trans hread', hmade'⟩

/-- **Arguments ask for the command that their settings make up**, in whatever order and form the
settings are spelled, if each is made once and rule and file are not both among them. -/
theorem parse_spells (hwords : List.Forall₂ Spells words settings) (hlast : Ending last more)
    (honce : ((settings ++ more).map Setting.slot).Nodup)
    (hsource : .rule ∉ (settings ++ more).map Setting.slot ∨
      .file ∉ (settings ++ more).map Setting.slot) :
    ∃ c, parse (words.flatten ++ last) = .ok (.compile c) ∧ Follows (settings ++ more) c := by
  obtain ⟨g, hparse, hmade⟩ := exists_parse_eq_request hwords hlast honce
  rw [hparse]
  exact exists_request_of_made hmade hsource

/-- **A rule and a file exclude each other**, which is found at the end of the arguments. -/
theorem parse_rule_and_file (hwords : List.Forall₂ Spells words settings) (hlast : Ending last more)
    (honce : ((settings ++ more).map Setting.slot).Nodup)
    (hrule : .rule ∈ (settings ++ more).map Setting.slot)
    (hfile : .file ∈ (settings ++ more).map Setting.slot) :
    parse (words.flatten ++ last) = .error .ruleAndFile := by
  obtain ⟨g, hparse, hmade⟩ := exists_parse_eq_request hwords hlast honce
  obtain ⟨text, htext⟩ := Option.isSome_iff_exists.mp ((hmade.has_iff .rule).mpr hrule)
  obtain ⟨path, hpath⟩ := Option.isSome_iff_exists.mp ((hmade.has_iff .file).mpr hfile)
  rw [hparse, Given.request, htext, hpath]

/-- **No setting is made twice.** The first that is decides, whatever stands behind it. -/
theorem parse_spells_again {word : List String} (hwords : List.Forall₂ Spells words settings)
    (honce : (settings.map Setting.slot).Nodup) (hword : Spells word s)
    (hmade : s.slot ∈ settings.map Setting.slot) (rest : List String) :
    parse (words.flatten ++ (word ++ rest)) = .error s.again := by
  obtain ⟨g, hread, hg⟩ := read_flatten hwords made_nil honce (word ++ rest)
  rw [parse, hread, read_spells hword, (hg.has_iff s.slot).mpr hmade]
  rfl

example : parse ["--json", "-fa.rule", "--indent", "2"] =
    .ok (.compile ⟨.file "a.rule", { indentWidth := 2 }, false, true, false⟩) := by rfl

end Command

end RegisterRules
