import RegisterRules.Document.Diagnostic
import RegisterRules.Proofs.JsonText
import RegisterRules.Trace

/-!
# What is written as a document is read back

Tokens, phrases, rules and reports of failures go into documents and come out again as they were, in
every part: the digits of a column with the three numbers that they need not agree with, what is
missing and what is not, and the text of every string.

A phrase is read to the depth of its document. Every phrase stands deeper in the document than the
phrase around it, so the depth is room enough.

How deep a document is nested matters to whoever reads its text. Only phrases are nested without
bound; tokens, rules and reports stay below a small depth, however long their lists are.

## Main results

* `Token.ofJson?_toJson`, `Phrase.ofJson?_toJson`, `Rule.ofJson?_toJson`,
  `Diagnostic.ofJson?_toJson`: documents are read as what they were made from.
* `Json.list?_array`: so are lists of them.
* `Token.depth_array_le`, `Rule.depth_toJson_le`, `Diagnostic.depth_toJson_le`: how deep documents
  are nested.
-/

namespace RegisterRules

/-! ### Fields -/

namespace Json

/-- A list whose items are read back is read back. -/
theorem list?_array {α : Type} {write : α → Json} {read : Json → Option α}
    (h : ∀ x, read (write x) = some x) (items : List α) :
    (Json.array (items.map write)).list? read = some items := by
  rw [list?, array?, Option.bind_some]
  induction items with
  | nil => rfl
  | cons item items ih =>
    rw [List.map_cons, List.mapM_cons, h, ih]
    rfl

/-- An optional field that is there. -/
theorem optional?_of_field? {α : Type} {name : String} {read : Json → Option α} {doc value : Json}
    (hfield : doc.field? name = some value) (hvalue : value ≠ .null) :
    doc.optional? name read = (read value).map some := by
  rw [optional?, hfield]
  split
  · next heq => cases heq
  · next heq => exact absurd (Option.some.inj heq) hvalue
  · next heq => rw [Option.some.inj heq]

/-- An optional field that is not there. -/
theorem optional?_of_missing {α : Type} {name : String} {read : Json → Option α} {doc : Json}
    (hfield : doc.field? name = none) : doc.optional? name read = some none := by
  rw [optional?, hfield]

/-- An optional field that is written as `null` when there is nothing. -/
theorem optional?_ofOption {α : Type} {name : String} {write : α → Json} {read : Json → Option α}
    {doc : Json} (h : ∀ x, read (write x) = some x) (hnull : ∀ x, write x ≠ .null) (x : Option α)
    (hfield : doc.field? name = some (.ofOption (x.map write))) :
    doc.optional? name read = some x := by
  rcases x with - | x
  · rw [optional?, hfield]
    rfl
  · rw [optional?_of_field? hfield (hnull x)]
    exact congrArg (Option.map some) (h x)

end Json

/-! ### Values, columns and tokens -/

theorem Value.ofJson?_toJson (value : Value) : ofJson? value.toJson = some value := by
  cases value <;> rfl

theorem Cell.part?_nat (n : UInt8) : part? (.nat n.toNat) = some n := by
  simp [part?, Json.below?, Json.nat, Json.nat?, n.toNat_lt_size]

theorem Cell.column?_nat (n : UInt32) : column? (.nat n.toNat) = some n := by
  simp [column?, Json.below?, Json.nat, Json.nat?, n.toNat_lt_size]

theorem Cell.ofJson?_toJson (c : Cell) : ofJson? c.toJson = some c := by
  simp [ofJson?, toJson, Json.field?, List.lookup_cons, Json.string?, part?_nat, column?_nat]

/-- **A token is read back**, with its place. -/
theorem Token.ofJson?_toJson (t : Token) : ofJson? t.toJson = some t := by
  simp [ofJson?, toJson, Json.field?, List.lookup_cons, Json.string?, Json.nat, Json.nat?]

/-! ### Phrases -/

namespace Phrase

theorem toJson_ne_null (phrase : Phrase) : phrase.toJson ≠ .null := by
  cases phrase <;> simp [toJson]

variable {read : Json → Option Phrase} {doc : Json}

theorem assignmentOf?_assignmentJson {value : Phrase} (h : read doc = some value) (target : Cell) :
    assignmentOf? read (assignmentJson target doc) = some (target, value) := by
  simp [assignmentOf?, assignmentJson, Json.field?, List.lookup_cons, Cell.ofJson?_toJson, h]

/-- The body of a conditional as a document. -/
def conditionalJson (test branch otherwise : Json) : Json :=
  .object [("condition", test), ("then_branch", branch), ("else_branch", otherwise)]

/-- A conditional is read back if its condition and its branches are. -/
theorem conditionalOf?_conditionalJson {test branch otherwise : Json} {condition value : Phrase}
    {target : Cell} {alternative : Option (Cell × Phrase)} (hcondition : read test = some condition)
    (hbranch : assignmentOf? read branch = some (target, value))
    (helse : (conditionalJson test branch otherwise).optional? "else_branch" (assignmentOf? read) =
      some alternative) :
    conditionalOf? read (conditionalJson test branch otherwise) =
      some (alternative.elim (.conditional condition target value) fun other =>
        .conditionalElse condition target value other.1 other.2) := by
  have htest : (conditionalJson test branch otherwise).field? "condition" = some test := rfl
  have hthen : (conditionalJson test branch otherwise).field? "then_branch" = some branch := rfl
  rw [conditionalOf?, htest, hthen, helse]
  simp only [Option.bind_eq_bind, Option.bind_some, hcondition, hbranch]
  rcases alternative with - | other <;> rfl

/-- An operation is read back if its condition is, or if it has none. -/
theorem operationOf?_operationJson {kind : TableOperation} {source : Cell} {column : Option UInt32}
    {condition : Option Phrase}
    (h : (operationJson kind source doc column).optional? "condition" read = some condition) :
    operationOf? read (operationJson kind source doc column) =
      some (condition.elim (.operation kind source column) fun condition =>
        .filteredOperation kind source condition column) := by
  have hkind : (operationJson kind source doc column).field? "kind" = some (.string kind.name) :=
    rfl
  have hsource : (operationJson kind source doc column).field? "source" = some source.toJson := rfl
  have hcolumn : (operationJson kind source doc column).optional? "target_column" Cell.column? =
      some column :=
    Json.optional?_ofOption Cell.column?_nat (fun n => by simp [Json.nat]) column rfl
  rw [operationOf?, hkind, hsource, hcolumn, h]
  simp only [Option.bind_eq_bind, Option.bind_some, Json.string?, TableOperation.ofName?_name,
    Cell.ofJson?_toJson]
  rcases condition with - | condition <;> rfl

theorem depth_toJson_pos (phrase : Phrase) : 0 < phrase.toJson.depth := by
  cases phrase <;> exact Nat.succ_pos _

/-- **With room for the depth of its document, a phrase is read back.** -/
theorem ofJsonWithin?_toJson {phrase : Phrase} {room : ℕ} (h : phrase.toJson.depth ≤ room) :
    ofJsonWithin? room phrase.toJson = some phrase := by
  induction room generalizing phrase with
  | zero => exact absurd h (Nat.not_le.mpr (depth_toJson_pos phrase))
  | succ room ih =>
    cases phrase with
    | conditional condition target value =>
      simp only [toJson, assignmentJson, Json.depth, Json.fieldDepth] at h
      have hcondition := ih (by omega : condition.toJson.depth ≤ room)
      have hvalue := ih (by omega : value.toJson.depth ≤ room)
      have helse : ∀ test branch, (conditionalJson test branch .null).optional? "else_branch"
          (assignmentOf? (ofJsonWithin? room)) = some none := fun _ _ => rfl
      exact conditionalOf?_conditionalJson hcondition
        (assignmentOf?_assignmentJson hvalue target) (helse _ _)
    | conditionalElse condition target value otherTarget otherValue =>
      simp only [toJson, assignmentJson, Json.depth, Json.fieldDepth] at h
      have hcondition := ih (by omega : condition.toJson.depth ≤ room)
      have hvalue := ih (by omega : value.toJson.depth ≤ room)
      have hother := assignmentOf?_assignmentJson
        (ih (by omega : otherValue.toJson.depth ≤ room)) otherTarget
      have helse : ∀ test branch,
          (conditionalJson test branch (assignmentJson otherTarget otherValue.toJson)).optional?
            "else_branch" (assignmentOf? (ofJsonWithin? room)) =
              some (some (otherTarget, otherValue)) := by
        intro test branch
        rw [Json.optional?_of_field? rfl (by simp [assignmentJson]), hother, Option.map_some]
      exact conditionalOf?_conditionalJson hcondition
        (assignmentOf?_assignmentJson hvalue target) (helse _ _)
    | binary left op right =>
      simp only [toJson, Json.depth, Json.fieldDepth] at h
      have hleft := ih (by omega : left.toJson.depth ≤ room)
      have hright := ih (by omega : right.toJson.depth ≤ room)
      simp [toJson, ofJsonWithin?, binaryOf?, Json.field?, List.lookup_cons, Json.string?, hleft,
        hright]
    | assignment target value =>
      simp only [toJson, assignmentJson, Json.depth, Json.fieldDepth] at h
      have hvalue := ih (by omega : value.toJson.depth ≤ room)
      simp [toJson, ofJsonWithin?, assignmentOf?_assignmentJson hvalue]
    | literal value => simp [toJson, ofJsonWithin?, Value.ofJson?_toJson]
    | cell c => simp [toJson, ofJsonWithin?, Cell.ofJson?_toJson]
    | operation kind source column =>
      have hnone : (operationJson kind source .null column).optional? "condition"
          (ofJsonWithin? room) = some none := rfl
      exact operationOf?_operationJson hnone
    | filteredOperation kind source condition column =>
      simp only [toJson, operationJson, Json.depth, Json.fieldDepth] at h
      have hcondition := ih (by omega : condition.toJson.depth ≤ room)
      have hsome : (operationJson kind source condition.toJson column).optional? "condition"
          (ofJsonWithin? room) = some (some condition) := by
        rw [Json.optional?_of_field? rfl condition.toJson_ne_null, hcondition, Option.map_some]
      exact operationOf?_operationJson hsome

/-- **A phrase is read back.** -/
theorem ofJson?_toJson (phrase : Phrase) : ofJson? phrase.toJson = some phrase :=
  ofJsonWithin?_toJson (Nat.le_refl _)

end Phrase

/-! ### Rules -/

theorem Operand.ofJson?_toJson (operand : Operand) : ofJson? operand.toJson = some operand := by
  cases operand <;>
    simp [ofJson?, toJson, Json.tagged, Json.field?, List.lookup_cons, Json.string?,
      Value.ofJson?_toJson, Cell.ofJson?_toJson]

theorem Condition.ofJson?_toJson (c : Condition) : ofJson? c.toJson = some c := by
  simp [ofJson?, toJson, Json.field?, List.lookup_cons, Json.string?, Cell.ofJson?_toJson,
    Operand.ofJson?_toJson]

theorem AssignedValue.ofJson?_toJson (value : AssignedValue) :
    ofJson? value.toJson = some value := by
  cases value <;>
    simp [ofJson?, toJson, Json.tagged, Json.field?, List.lookup_cons, Json.string?,
      Value.ofJson?_toJson, Cell.ofJson?_toJson]

theorem Assignment.ofJson?_toJson (a : Assignment) : ofJson? a.toJson = some a := by
  simp [ofJson?, toJson, Json.field?, List.lookup_cons, Cell.ofJson?_toJson,
    AssignedValue.ofJson?_toJson]

/-- **A rule is read back.** -/
theorem Rule.ofJson?_toJson (r : Rule) : ofJson? r.toJson = some r := by
  have hconditions : r.toJson.field? "conditions" =
      some (.array (r.conditions.map Condition.toJson)) := rfl
  have hconsequent : r.toJson.field? "then_assignment" = some r.consequent.toJson := rfl
  have halternative : r.toJson.optional? "else_assignment" Assignment.ofJson? =
      some r.alternative :=
    Json.optional?_ofOption Assignment.ofJson?_toJson (fun a => by simp [Assignment.toJson])
      r.alternative rfl
  rw [ofJson?, hconditions, hconsequent, halternative]
  simp only [Option.bind_eq_bind, Option.bind_some, Json.list?_array Condition.ofJson?_toJson,
    Assignment.ofJson?_toJson]
  rfl

/-! ### Reports -/

theorem Location.ofJson?_toJson (l : Location) : ofJson? l.toJson = some l := by
  simp [ofJson?, toJson, Json.field?, List.lookup_cons, Json.nat, Json.nat?]

namespace Diagnostic

/-- The place of a report is read back; one without a place has no field for it. -/
theorem optional?_location (d : Diagnostic) :
    d.toJson.optional? "location" Location.ofJson? = some d.location := by
  obtain ⟨code, message, suggestion, location⟩ := d
  cases location with
  | none =>
    cases suggestion with
    | none => exact Json.optional?_of_missing rfl
    | some s => exact Json.optional?_of_missing rfl
  | some l =>
    have hfield : (toJson ⟨code, message, suggestion, some l⟩).field? "location" =
        some l.toJson := rfl
    rw [Json.optional?_of_field? hfield (by simp [Location.toJson]), Location.ofJson?_toJson]
    rfl

/-- So is its suggestion. -/
theorem optional?_suggestion (d : Diagnostic) :
    d.toJson.optional? "suggestion" Json.string? = some d.suggestion := by
  obtain ⟨code, message, suggestion, location⟩ := d
  cases suggestion <;> cases location <;> rfl

/-- **A report is read back**, whether it has a place and a suggestion or not. -/
theorem ofJson?_toJson (d : Diagnostic) : ofJson? d.toJson = some d := by
  have hcode : d.toJson.field? "code" = some (.string d.code) := rfl
  have hmessage : d.toJson.field? "message" = some (.string d.message) := by
    obtain ⟨code, message, suggestion, location⟩ := d
    cases location <;> rfl
  rw [ofJson?, hcode, hmessage, optional?_suggestion, optional?_location]
  rfl

end Diagnostic

/-! ### Depths -/

theorem Value.depth_toJson (value : Value) : value.toJson.depth = 1 := by
  cases value <;> rfl

theorem Cell.depth_toJson (c : Cell) : c.toJson.depth = 1 := rfl

theorem Token.depth_toJson (t : Token) : t.toJson.depth = 1 := rfl

/-- Tokens are nested no deeper the more there are. -/
theorem Token.depth_array_le (tokens : List Token) :
    (Json.array (tokens.map Token.toJson)).depth ≤ 2 :=
  Json.depth_array_le (fun t => t.depth_toJson.le) tokens

theorem Operand.depth_toJson (operand : Operand) : operand.toJson.depth = 2 := by
  cases operand <;>
    simp [toJson, Json.tagged, Json.depth, Json.fieldDepth, Value.depth_toJson, Cell.depth_toJson]

theorem Condition.depth_toJson (c : Condition) : c.toJson.depth = 3 := by
  simp [toJson, Json.depth, Json.fieldDepth, Operand.depth_toJson, Cell.depth_toJson]

theorem AssignedValue.depth_toJson_le (value : AssignedValue) : value.toJson.depth ≤ 2 := by
  cases value <;>
    simp [toJson, Json.tagged, Json.depth, Json.fieldDepth, Value.depth_toJson, Cell.depth_toJson]

theorem Assignment.depth_toJson_le (a : Assignment) : a.toJson.depth ≤ 3 := by
  have hvalue := a.value.depth_toJson_le
  simp only [toJson, Json.depth, Json.fieldDepth, Cell.depth_toJson]
  omega

/-- A rule is nested no deeper with many conditions than with one. -/
theorem Rule.depth_toJson_le (r : Rule) : r.toJson.depth ≤ 5 := by
  have hconditions := Json.depth_array_le (fun c => (Condition.depth_toJson c).le) r.conditions
  have hconsequent := r.consequent.depth_toJson_le
  have halternative : (Json.ofOption (r.alternative.map Assignment.toJson)).depth ≤ 3 := by
    rcases r.alternative with - | a
    · exact Nat.zero_le 3
    · exact a.depth_toJson_le
  simp only [toJson, Json.depth, Json.fieldDepth] at hconditions ⊢
  omega

theorem Diagnostic.depth_toJson_le (d : Diagnostic) : d.toJson.depth ≤ 2 := by
  obtain ⟨code, message, suggestion, location⟩ := d
  rcases suggestion with - | s <;> rcases location with - | l <;>
    simp [toJson, Location.toJson, Json.depth, Json.fieldDepth, Json.nat]

end RegisterRules
