import RegisterRules.Proofs.Documents
import RegisterRules.Proofs.Lines

/-!
# The journal of a compilation reads back

A journal without a limit takes one document for each stage, with a line break behind it. In the
compact style a document has no line break in it, so the lines of the journal are its documents, and
each is read as what the stage has made: the tokens of the source, then its phrase if it parses,
then its rule if it is a conditional.

There is one exception, and it is a matter of depth. The document of a phrase is as deep as the
phrase, and the reader takes no more than 127 arrays and objects one in another. A sum of 63 levels
is beyond that (`nestedSum`), so it is written and not read back. Tokens and rules are flat, and
always come back.

## Main definitions

* `Journal.Entry`, `Journal.entries`: what a journal tells of one stage, and of a source.
* `Journal.Entry.document`, `Journal.Entry.read?`: an entry as a document, and back from a text.

## Main results

* `Writer.putDocument_bytes`: what a writer without a limit takes.
* `Journal.compileWith_observer`: a compilation writes the documents of its entries.
* `Journal.Entry.read?_print`: an entry is read back, in either style, if its depth allows.
* `Journal.documents_lossless`: what is read back of tokens, phrases, rules and compact journals.
* `Journal.nestedSum_not_read_back`: a phrase that is not.
-/

namespace RegisterRules

/-! ### Texts as bytes -/

namespace Text

theorem bytes_append (first second : String) :
    bytes (first ++ second) = bytes first ++ bytes second := by
  simp [bytes, String.toUTF8]

theorem ofBytes?_bytes (text : String) : ofBytes? (bytes text) = some text := by
  have hbytes : (⟨(bytes text).toArray⟩ : ByteArray) = text.toByteArray := by
    simp [bytes, String.toUTF8]
  rw [ofBytes?, hbytes, String.fromUTF8?, dif_pos text.isValidUTF8]
  rfl

end Text

/-- A writer without a limit takes a document and its line break. -/
theorem Writer.putDocument_bytes (text : String) (style : Json.Style) (doc : Json) :
    putDocument ⟨none, Text.bytes text⟩ style doc =
      ⟨none, Text.bytes (text ++ (doc.print style ++ "\n"))⟩ := by
  simp [putDocument, put, fitting, Text.bytes_append]

namespace Journal

/-! ### Entries -/

/-- What a journal tells of one stage. -/
inductive Entry where
  | tokens (tokens : List Token)
  | phrase (phrase : Phrase)
  | rule (rule : Rule)

namespace Entry

/-- The document of an entry: the name of the stage and what it has made. -/
def document : Entry → Json
  | .tokens ts => .object [("stage", .string "tokens"), ("data", .array (ts.map Token.toJson))]
  | .phrase p => .object [("stage", .string "ast"), ("data", p.toJson)]
  | .rule r => .object [("stage", .string "rule"), ("data", r.toJson)]

/-- The entry that a document describes. -/
def ofDocument? (doc : Json) : Option Entry := do
  let name ← (← doc.field? "stage").string?
  let data ← doc.field? "data"
  if name = "tokens" then (data.list? Token.ofJson?).map .tokens
  else if name = "ast" then (Phrase.ofJson? data).map .phrase
  else if name = "rule" then (Rule.ofJson? data).map .rule
  else none

/-- The entry that a text holds. -/
def read? (text : String) : Option Entry := (Json.parse? text).bind ofDocument?

theorem ofDocument?_document (e : Entry) : ofDocument? e.document = some e := by
  cases e with
  | tokens tokens =>
    simp [ofDocument?, document, Json.field?, List.lookup_cons, Json.string?,
      Json.list?_array Token.ofJson?_toJson]
  | phrase phrase =>
    simp [ofDocument?, document, Json.field?, List.lookup_cons, Json.string?,
      Phrase.ofJson?_toJson]
  | rule rule =>
    simp [ofDocument?, document, Json.field?, List.lookup_cons, Json.string?, Rule.ofJson?_toJson]

/-- **An entry is read back from its text**, unless its document is nested too deep. -/
theorem read?_print (style : Json.Style) (e : Entry) :
    read? (e.document.print style) =
      if e.document.depth < Json.nestingLimit then some e else none :=
  Json.bind_parse?_print e.ofDocument?_document style

theorem depth_tokens_le (tokens : List Token) : (Entry.tokens tokens).document.depth ≤ 3 := by
  have htokens := Token.depth_array_le tokens
  simp only [document, Json.depth, Json.fieldDepth] at htokens ⊢
  omega

theorem depth_phrase (phrase : Phrase) :
    (Entry.phrase phrase).document.depth = phrase.toJson.depth + 1 := by
  simp [document, Json.depth, Json.fieldDepth]

theorem depth_rule_le (rule : Rule) : (Entry.rule rule).document.depth ≤ 6 := by
  have hrule := rule.depth_toJson_le
  simp only [document, Json.depth, Json.fieldDepth]
  omega

end Entry

/-- What the stages of a compilation make of a source: its tokens, its phrase if it parses, and its
rule if that is a conditional. -/
def entries (source : String) : List Entry :=
  .tokens (Token.scan source) ::
    match Phrase.parse (Token.scan source) with
    | .error _ => []
    | .ok phrase => .phrase phrase :: ((Rule.ofPhrase? phrase).map Entry.rule).toList

/-! ### The run of a compilation -/

/-- **A compilation writes the documents of its entries**, one after the other. -/
theorem compileWith_observer (settings : Settings) (style : Json.Style) (source : String)
    (w : Writer) :
    (settings.compileWith (observer style) source w).2 =
      (entries source).foldl (fun w e => w.putDocument style e.document) w := by
  rw [Settings.compileWith, entries]
  rcases Phrase.parse (Token.scan source) with e | phrase
  · rfl
  · dsimp only
    rcases Rule.ofPhrase? phrase with - | rule <;> rfl

/-- The documents of entries, each with a line break behind it. -/
def text (style : Json.Style) (entries : List Entry) : String :=
  String.join (entries.map fun e => e.document.print style ++ "\n")

theorem text_cons (style : Json.Style) (e : Entry) (entries : List Entry) :
    text style (e :: entries) = e.document.print style ++ "\n" ++ text style entries := by
  rw [text, List.map_cons, String.join_cons]
  rfl

/-- A writer without a limit takes the documents of all entries. -/
theorem foldl_putDocument (style : Json.Style) (entries : List Entry) (before : String) :
    entries.foldl (fun w e => w.putDocument style e.document) ⟨none, Text.bytes before⟩ =
      (⟨none, Text.bytes (before ++ text style entries)⟩ : Writer) := by
  induction entries generalizing before with
  | nil => rw [text, List.map_nil, String.join_nil, String.append_empty]; rfl
  | cons e entries ih =>
    rw [List.foldl_cons, Writer.putDocument_bytes, ih, text_cons, String.append_assoc]

/-- A writer without a limit is left with the documents of all entries of the source. -/
theorem compileWith_observer_unlimited (settings : Settings) (style : Json.Style)
    (source : String) :
    (settings.compileWith (observer style) source {}).2 =
      ⟨none, Text.bytes (text style (entries source))⟩ := by
  have hempty : ({} : Writer) = ⟨none, Text.bytes ""⟩ := rfl
  rw [compileWith_observer, hempty, foldl_putDocument, String.empty_append]

/-- The bytes of a journal without a limit are those of its documents. -/
theorem ofBytes?_taken (settings : Settings) (style : Json.Style) (source : String) :
    Text.ofBytes? (settings.compileWith (observer style) source {}).2.taken =
      some (text style (entries source)) := by
  rw [compileWith_observer_unlimited, Text.ofBytes?_bytes]

/-! ### Lines -/

theorem toList_text (style : Json.Style) (entries : List Entry) :
    (text style entries).toList = ['\n'].intercalate
      ((entries.map fun e => e.document.print style).map String.toList ++ [[]]) := by
  rw [← Procedure.toList_joinLines, Procedure.joinLines, List.map_map]
  rfl

/-- **Documents lose nothing but depth.** Tokens or a rule that are written as a document, in either
style, are read back from its text. So is a phrase if its document is less than 128 arrays and
objects deep; otherwise the reader refuses the text. The compact journal of a source has one
document for each stage, and no document has a line break in it, so the documents are the lines of
the journal. They are read as the tokens of the source, then its phrase if it parses, then its rule
if it is a conditional; only the line of the phrase is refused if it is 128 deep or more. -/
theorem documents_lossless :
    (∀ (style : Json.Style) (tokens : List Token),
      (Json.parse? ((Json.array (tokens.map Token.toJson)).print style)).bind
        (Json.list? Token.ofJson?) = some tokens) ∧
    (∀ (style : Json.Style) (phrase : Phrase),
      (Json.parse? (phrase.toJson.print style)).bind Phrase.ofJson? =
        if phrase.toJson.depth < 128 then some phrase else none) ∧
    (∀ (style : Json.Style) (rule : Rule),
      (Json.parse? (rule.toJson.print style)).bind Rule.ofJson? = some rule) ∧
    ∀ (settings : Settings) (source : String), ∃ (journal : String) (lines : List String),
      Text.ofBytes? (settings.compileWith (observer .compact) source {}).2.taken = some journal ∧
      lines = (entries source).map (fun e => e.document.print .compact) ∧
      (∀ line ∈ lines, '\n' ∉ line.toList) ∧
      journal.toList.splitOn '\n' = lines.map String.toList ++ [[]] ∧
      lines.map Entry.read? = (entries source).map fun
        | .tokens tokens => some (.tokens tokens)
        | .phrase phrase => if phrase.toJson.depth + 1 < 128 then some (.phrase phrase) else none
        | .rule rule => some (.rule rule) := by
  refine ⟨fun style tokens => ?_, fun style phrase => ?_, fun style rule => ?_,
    fun settings source => ?_⟩
  · rw [Json.bind_parse?_print (Json.list?_array Token.ofJson?_toJson tokens),
      if_pos ((Token.depth_array_le tokens).trans_lt (by decide))]
  · exact Json.bind_parse?_print phrase.ofJson?_toJson style
  · rw [Json.bind_parse?_print rule.ofJson?_toJson,
      if_pos (rule.depth_toJson_le.trans_lt (by decide))]
  · have hlines : ∀ line ∈ (entries source).map (fun e => e.document.print .compact),
        '\n' ∉ line.toList :=
      List.forall_mem_map.mpr fun e _ => Json.newline_not_mem_print e.document
    refine ⟨_, _, ofBytes?_taken settings .compact source, rfl, hlines, ?_, ?_⟩
    · rw [toList_text, List.splitOn_intercalate]
      · refine List.forall_mem_append.mpr ⟨List.forall_mem_map.mpr hlines, ?_⟩
        simp
      · simp
    · rw [List.map_map]
      refine List.map_congr_left fun e _ => (Entry.read?_print .compact e).trans ?_
      cases e with
      | tokens tokens => exact if_pos ((Entry.depth_tokens_le tokens).trans_lt (by decide))
      | phrase phrase => rw [Entry.depth_phrase, Json.nestingLimit]
      | rule rule => exact if_pos ((Entry.depth_rule_le rule).trans_lt (by decide))

/-! ### A phrase that is too deep -/

/-- A sum of nothings whose first operand is such a sum again, a number of levels deep. -/
def nestedSum : ℕ → Phrase
  | 0 => .literal .null
  | levels + 1 => .binary (nestedSum levels) .add (.literal .null)

/-- Every level takes two objects, and the literal inside two more. -/
theorem depth_nestedSum (levels : ℕ) : (nestedSum levels).toJson.depth = 2 * levels + 2 := by
  induction levels with
  | zero => rfl
  | succ levels ih =>
    simp only [nestedSum, Phrase.toJson, Value.toJson, Json.depth, Json.fieldDepth, ih]
    omega

/-- **A sum of 63 levels is written and not read back**, in neither style, and one of 62 levels is
the deepest that is. -/
theorem nestedSum_not_read_back :
    (∀ style : Json.Style,
      (Json.parse? ((nestedSum 63).toJson.print style)).bind Phrase.ofJson? = none) ∧
    ∀ style : Json.Style,
      (Json.parse? ((nestedSum 62).toJson.print style)).bind Phrase.ofJson? =
        some (nestedSum 62) := by
  refine ⟨fun style => ?_, fun style => ?_⟩
  · rw [Json.parse?_print, depth_nestedSum]
    rfl
  · rw [Json.bind_parse?_print (Phrase.ofJson?_toJson _), depth_nestedSum]
    rfl

end Journal

end RegisterRules
