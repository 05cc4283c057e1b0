import RegisterRules.Proofs.Journal

/-!
# A journal that is cut off

A compilation takes no notice of who watches it, so a journal changes no result, and neither does a
writer that stops taking bytes in the middle of it. What such a writer has taken is the beginning of
the whole journal.

One invariant carries this: a writer with a limit that has been offered a sequence of bytes holds
the first of them. A write keeps it whether it fits, is cut or comes after the cut. After a document
that was cut its line break is not written, but then the limit has been reached already, and the
same invariant covers all later documents. In what pieces a document is handed over makes no
difference, as long as they come in order and end with the first that does not fit.

## Main definitions

* `Writer.offered`: a writer with a limit that has been offered a sequence of bytes.
* `Writer.putPieces`, `Journal.observerIn`: a journal that hands over its documents in pieces.

## Main results

* `Settings.compileWith_fst`: an observer changes no result.
* `Writer.putDocument_offered`: what one document leaves with a writer that has a limit.
* `Writer.putPieces_eq_put`: pieces are taken as the sequence that they make up.
* `Journal.compileWith_limited`: a journal with a limit is the beginning of the whole one.
-/

namespace RegisterRules

/-- **Observers only watch.** -/
theorem Settings.compileWith_fst {σ : Type} (settings : Settings) (observer : Observer σ)
    (source : String) (state : σ) :
    (settings.compileWith observer source state).1 = settings.compile source := by
  rw [compile, compileWith, compileWith]
  rcases Phrase.parse (Token.scan source) with e | phrase
  · rfl
  · dsimp only
    rcases Rule.ofPhrase? phrase with - | rule <;> rfl

namespace Writer

/-! ### One write -/

theorem put_none (taken bytes : List UInt8) :
    put ⟨none, taken⟩ bytes = (⟨none, taken ++ bytes⟩, true) := by
  simp [put, fitting]

theorem put_some (limit : Nat) (taken bytes : List UInt8) :
    put ⟨some limit, taken⟩ bytes =
      (⟨some limit, taken ++ bytes.take (limit - taken.length)⟩,
        decide (bytes.length ≤ limit - taken.length)) := by
  have hfits : ((bytes.take (limit - taken.length)).length == bytes.length) =
      decide (bytes.length ≤ limit - taken.length) := by
    rw [List.length_take, Bool.eq_iff_iff, beq_iff_eq, decide_eq_true_iff]
    omega
  show (_, (bytes.take (limit - taken.length)).length == bytes.length) = _
  rw [hfits]
  rfl

/-- Bytes are written behind those before them, or not at all if these did not fit. -/
theorem put_append (w : Writer) (first second : List UInt8) :
    w.put (first ++ second) =
      if (w.put first).2 = true then (w.put first).1.put second else w.put first := by
  obtain ⟨room, taken⟩ := w
  cases room with
  | none => simp only [put_none, if_true, List.append_assoc]
  | some limit =>
    simp only [put_some, decide_eq_true_iff]
    by_cases hfirst : first.length ≤ limit - taken.length
    · have hroom : limit - (taken ++ first).length = limit - taken.length - first.length := by
        rw [List.length_append]
        omega
      have hlength : (first ++ second).length ≤ limit - taken.length ↔
          second.length ≤ limit - taken.length - first.length := by
        rw [List.length_append]
        omega
      rw [if_pos hfirst, List.take_append, List.take_of_length_le hfirst, hroom, List.append_assoc]
      simp only [hlength]
    · have hcut : limit - taken.length ≤ first.length := by omega
      have hboth : ¬ (first ++ second).length ≤ limit - taken.length := by
        rw [List.length_append]
        omega
      rw [if_neg hfirst, List.take_append_of_le_length hcut, decide_eq_false hboth,
        decide_eq_false hfirst]

/-! ### What a limit leaves -/

/-- A writer with a limit that has been offered a sequence of bytes: it holds the first of them. -/
def offered (limit : Nat) (bytes : List UInt8) : Writer := ⟨some limit, bytes.take limit⟩

variable {limit : Nat} {seen : List UInt8}

theorem put_offered (more : List UInt8) :
    (offered limit seen).put more =
      (offered limit (seen ++ more), decide (more.length ≤ limit - seen.length)) := by
  have hroom : limit - (seen.take limit).length = limit - seen.length := by
    rw [List.length_take]
    omega
  rw [offered, put_some, hroom, ← List.take_append, offered]

/-- Behind the limit nothing is taken any more. -/
theorem offered_append_of_le (h : limit ≤ seen.length) (more : List UInt8) :
    offered limit (seen ++ more) = offered limit seen := by
  rw [offered, offered, List.take_append_of_le_length h]

/-- **A document keeps the invariant**: its bytes and those of its line break have been offered,
though the line break is not written if the document does not fit. -/
theorem putDocument_offered (style : Json.Style) (doc : Json) :
    (offered limit seen).putDocument style doc =
      offered limit (seen ++ Text.bytes (doc.print style ++ "\n")) := by
  rw [Text.bytes_append, ← List.append_assoc, putDocument, put_offered]
  set written := Text.bytes (doc.print style)
  by_cases hfits : written.length ≤ limit - seen.length
  · rw [decide_eq_true hfits]
    show ((offered limit (seen ++ written)).put _).1 = _
    rw [put_offered]
  · -- the line break is left out, and there would be no room for it
    have hcut : limit ≤ (seen ++ written).length := by
      rw [List.length_append]
      omega
    rw [decide_eq_false hfits, offered_append_of_le hcut]

/-! ### Pieces -/

/-- Write the pieces of a sequence in order, up to the first that does not fit, and say whether all
of them did. -/
def putPieces (w : Writer) : List (List UInt8) → Writer × Bool
  | [] => (w, true)
  | piece :: pieces =>
    match w.put piece with
    | (w, true) => w.putPieces pieces
    | (w, false) => (w, false)

/-- Write a document in pieces and, if all of them were written, a line break. -/
def putDocumentIn (w : Writer) (pieces : List (List UInt8)) : Writer :=
  match w.putPieces pieces with
  | (w, true) => (w.put (Text.bytes "\n")).1
  | (w, false) => w

/-- **Pieces are taken as the sequence that they make up.** -/
theorem putPieces_eq_put (w : Writer) (pieces : List (List UInt8)) :
    w.putPieces pieces = w.put pieces.flatten := by
  induction pieces generalizing w with
  | nil =>
    obtain ⟨room, taken⟩ := w
    cases room with
    | none => simp [put_none, putPieces]
    | some limit => simp [put_some, putPieces]
  | cons piece pieces ih =>
    rw [putPieces, List.flatten_cons, put_append]
    rcases w.put piece with ⟨w', fits⟩
    cases fits with
    | true => exact ih w'
    | false => rfl

theorem putDocumentIn_eq {style : Json.Style} {doc : Json} {pieces : List (List UInt8)}
    (h : pieces.flatten = Text.bytes (doc.print style)) (w : Writer) :
    w.putDocumentIn pieces = w.putDocument style doc := by
  rw [putDocumentIn, putPieces_eq_put, h]
  rfl

end Writer

namespace Journal

/-- The journal that hands over each document in pieces. -/
def observerIn (pieces : Json → List (List UInt8)) : Observer Writer where
  sawTokens tokens writer := writer.putDocumentIn (pieces (tokensDocument tokens))
  sawPhrase phrase writer := writer.putDocumentIn (pieces (phraseDocument phrase))
  sawRule rule writer := writer.putDocumentIn (pieces (ruleDocument rule))

/-- In what pieces the documents are handed over makes no difference. -/
theorem observerIn_eq {style : Json.Style} {pieces : Json → List (List UInt8)}
    (h : ∀ doc, (pieces doc).flatten = Text.bytes (doc.print style)) :
    observerIn pieces = observer style := by
  simp only [observerIn, observer, Writer.putDocumentIn_eq (h _)]

/-! ### Entries -/

theorem entries_of_parse_error {source : String} {e : SourceError}
    (h : Phrase.parse (Token.scan source) = .error e) :
    entries source = [.tokens (Token.scan source)] := by
  rw [entries, h]

/-- A source that is a rule, but no conditional, has entries for its tokens and its phrase. -/
theorem entries_of_bare {source : String} {phrase : Phrase}
    (h : Phrase.parse (Token.scan source) = .ok phrase) (hbare : phrase.isConditional = false) :
    entries source = [.tokens (Token.scan source), .phrase phrase] := by
  rw [entries, h]
  cases phrase with
  | conditional | conditionalElse => cases hbare
  | binary | assignment | literal | cell | operation | filteredOperation => rfl

/-- A conditional also has one for its rule. -/
theorem entries_of_conditional {source : String} {phrase : Phrase}
    (h : Phrase.parse (Token.scan source) = .ok phrase)
    (hconditional : phrase.isConditional = true) :
    ∃ rule, Rule.ofPhrase? phrase = some rule ∧
      entries source = [.tokens (Token.scan source), .phrase phrase, .rule rule] := by
  rw [entries, h]
  cases phrase with
  | conditional | conditionalElse => exact ⟨_, rfl, rfl⟩
  | binary | assignment | literal | cell | operation | filteredOperation => cases hconditional

/-! ### The cut journal -/

/-- What the entries of a source leave with a writer that has a limit. -/
theorem foldl_putDocument_offered (style : Json.Style) (limit : Nat) (entries : List Entry)
    (seen : List UInt8) :
    entries.foldl (fun w e => w.putDocument style e.document) (Writer.offered limit seen) =
      Writer.offered limit (seen ++ Text.bytes (text style entries)) := by
  induction entries generalizing seen with
  | nil => exact congrArg _ (List.append_nil seen).symm
  | cons e entries ih =>
    rw [List.foldl_cons, Writer.putDocument_offered, ih, text_cons, Text.bytes_append _ (text _ _),
      List.append_assoc]

/-- A writer with a limit is left with the beginning of the documents of all entries. -/
theorem compileWith_observer_offered (settings : Settings) (style : Json.Style) (source : String)
    (limit : Nat) :
    (settings.compileWith (observer style) source { limit := some limit }).2 =
      ⟨some limit, (Text.bytes (text style (entries source))).take limit⟩ := by
  have hempty : ({ limit := some limit } : Writer) = Writer.offered limit [] := by
    rw [Writer.offered, List.take_nil]
  rw [compileWith_observer, hempty, foldl_putDocument_offered, List.nil_append, Writer.offered]

/-- **A journal with a limit is the beginning of the whole one.** The whole journal of a source has
the document of its tokens, then that of its phrase if and only if it parses, then that of its rule
if and only if it is a conditional, whatever becomes of its procedure; behind each document stands a
line break. Each document tells its entry in full, and its text is read as the document if it is
less than 128 arrays and objects deep. A writer with a limit takes the beginning of the whole
journal that fits, in whatever pieces the documents are handed over. With either writer the result
is that of a compilation which nobody watches. -/
theorem compileWith_limited (settings : Settings) (style : Json.Style) (source : String)
    (pieces : Json → List (List UInt8))
    (inOrder : ∀ doc, (pieces doc).flatten = Text.bytes (doc.print style)) :
    ((∀ e, Phrase.parse (Token.scan source) = .error e →
        entries source = [.tokens (Token.scan source)]) ∧
      ∀ phrase, Phrase.parse (Token.scan source) = .ok phrase →
        (phrase.isConditional = false →
          entries source = [.tokens (Token.scan source), .phrase phrase]) ∧
        (phrase.isConditional = true → ∃ rule, Rule.ofPhrase? phrase = some rule ∧
          entries source = [.tokens (Token.scan source), .phrase phrase, .rule rule])) ∧
    (∀ e : Entry, Entry.ofDocument? e.document = some e ∧
      (e.document.depth < 128 → Json.parse? (e.document.print style) = some e.document)) ∧
    observerIn pieces = observer style ∧
    settings.compileWith (observer style) source {} =
      (settings.compile source, ⟨none, Text.bytes (text style (entries source))⟩) ∧
    ∀ limit, settings.compileWith (observer style) source { limit := some limit } =
      (settings.compile source,
        ⟨some limit, (Text.bytes (text style (entries source))).take limit⟩) := by
  refine ⟨⟨fun e hparse => ?_, fun phrase hparse => ⟨fun hbare => ?_, fun hconditional => ?_⟩⟩,
    fun e => ⟨e.ofDocument?_document, fun hdepth => Json.parse?_print_of_lt hdepth style⟩,
    observerIn_eq inOrder, ?_, fun limit => ?_⟩
  · exact entries_of_parse_error hparse
  · exact entries_of_bare hparse hbare
  · exact entries_of_conditional hparse hconditional
  · exact Prod.ext (settings.compileWith_fst _ _ _)
      (compileWith_observer_unlimited settings style source)
  · exact Prod.ext (settings.compileWith_fst _ _ _)
      (compileWith_observer_offered settings style source limit)

/-- A conditional that parses and assigns a sum. -/
def sumAssigned : String := "если гр10102212==гр10102213 то гр10103206=гр10102213+гр10102213"

/-- It has no procedure, but its journal has all three documents, and handed over byte by byte they
are cut at every limit. -/
theorem compileWith_limited_sumAssigned :
    (∀ doc : Json, ((Text.bytes (doc.print .compact)).map fun b => [b]).flatten =
      Text.bytes (doc.print .compact)) ∧
    ∃ phrase rule, Phrase.parse (Token.scan sumAssigned) = .ok phrase ∧
      Rule.ofPhrase? phrase = some rule ∧ ∀ limit, ({} : Settings).compileWith
        (observerIn fun doc => (Text.bytes (doc.print .compact)).map fun b => [b]) sumAssigned
        { limit := some limit } =
      (.error ⟨"UNSUPPORTED_ASSIGNMENT",
          "Value assigned to гр10103206 is an arithmetic expression (гр10102213 + гр10102213)",
          some "Assign a column reference or a literal", none⟩,
        ⟨some limit, (Text.bytes (text .compact
          [.tokens (Token.scan sumAssigned), .phrase phrase, .rule rule])).take limit⟩) := by
  have hbytes : ∀ doc : Json, ((Text.bytes (doc.print .compact)).map fun b => [b]).flatten =
      Text.bytes (doc.print .compact) := by
    intro doc
    rw [← List.flatMap_def, List.flatMap_singleton']
  have hparse : Phrase.parse (Token.scan sumAssigned) = .ok (.conditional
      (.binary (.cell ⟨"10102", 2, 12, "10102212"⟩) .eq (.cell ⟨"10102", 2, 13, "10102213"⟩))
      ⟨"10103", 2, 6, "10103206"⟩
      (.binary (.cell ⟨"10102", 2, 13, "10102213"⟩) .add
        (.cell ⟨"10102", 2, 13, "10102213"⟩))) := by decide +kernel
  have hcompile : ({} : Settings).compile sumAssigned = .error ⟨"UNSUPPORTED_ASSIGNMENT",
      "Value assigned to гр10103206 is an arithmetic expression (гр10102213 + гр10102213)",
      some "Assign a column reference or a literal", none⟩ := by decide +kernel
  obtain ⟨⟨-, hparsed⟩, -, hobserver, -, hlimited⟩ :=
    compileWith_limited {} .compact sumAssigned _ hbytes
  obtain ⟨rule, hrule, hentries⟩ := (hparsed _ hparse).2 rfl
  refine ⟨hbytes, _, rule, hparse, hrule, fun limit => ?_⟩
  rw [hobserver, hlimited, hentries, hcompile]

end Journal

end RegisterRules
