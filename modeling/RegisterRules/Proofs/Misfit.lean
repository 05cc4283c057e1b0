import Mathlib.Algebra.Group.Nat.Defs
import Mathlib.Data.List.TakeWhile
import RegisterRules.Compile
import RegisterRules.Proofs.Lookahead
import RegisterRules.Proofs.Spans

/-!
# Where errors point

An error has the place of the first token that no rule could have there. The tokens before it begin
some rule; with it behind them they begin none. If the tokens run out, the place is right behind the
last of them, and what no rule could have there is the end of input.

For a source text the place is one of its tokens, so it lies inside the source and the line is that
of the offset.

## Main definitions

* `Phrase.StandsAt`, `Phrase.placeAt`: the token at an index and its place.

## Main results

* `Phrase.exists_misfit`: the token at fault.
* `Phrase.parse_error_points_at_misfit`: the same with the places, and for source texts.
-/

namespace RegisterRules

namespace Phrase

namespace Grammar

/-- No word of the grammar holds an end of input. -/
theorem Derives.kind_ne {symbol : Symbol} {opened : ℕ} {word : List Token} {phrase : Phrase}
    (h : Derives symbol opened word phrase) : ∀ t ∈ word, t.kind ≠ .endOfInput := by
  induction h with
  | item _ ih => exact ih
  | @join level _ before after o op _ _ _ hjoins _ ihbefore ihafter =>
    have ho : o.kind ≠ .endOfInput := by
      intro hkind
      rw [hkind] at hjoins
      cases hjoins
    exact List.forall_mem_append.mpr ⟨ihbefore, List.forall_mem_cons.mpr ⟨ho, ihafter⟩⟩
  | column hcolumn => simp [hcolumn.kind]
  | number hkind _ => simp [hkind]
  | string hkind => simp [hkind]
  | nothing hkind => simp [hkind]
  | brackets _ hopening _ hclosing ih =>
    refine List.forall_mem_cons.mpr ⟨by simp [hopening], List.forall_mem_append.mpr ⟨ih, ?_⟩⟩
    simp [hclosing]

theorem Assigns.kind_ne {word : List Token} {target : Cell} {value : Phrase}
    (h : Assigns word target value) : ∀ t ∈ word, t.kind ≠ .endOfInput := by
  obtain ⟨hcolumn, hassign, hamount⟩ := h
  refine List.forall_mem_cons.mpr ⟨by simp [hcolumn.kind], List.forall_mem_cons.mpr ⟨?_, ?_⟩⟩
  · simp [hassign]
  · exact hamount.kind_ne

theorem Spells.kind_ne {word : List Token} {phrase : Phrase} (h : Spells word phrase) :
    ∀ t ∈ word, t.kind ≠ .endOfInput := by
  cases h with
  | conditional hfirst htest hnext hassigns =>
    refine List.forall_mem_cons.mpr ⟨by simp [hfirst], List.forall_mem_append.mpr
      ⟨htest.kind_ne, List.forall_mem_cons.mpr ⟨by simp [hnext], hassigns.kind_ne⟩⟩⟩
  | conditionalElse hfirst htest hnext hassigns hlast hother =>
    refine List.forall_mem_cons.mpr ⟨by simp [hfirst], List.forall_mem_append.mpr
      ⟨htest.kind_ne, List.forall_mem_cons.mpr ⟨by simp [hnext], List.forall_mem_append.mpr
        ⟨hassigns.kind_ne, List.forall_mem_cons.mpr ⟨by simp [hlast], hother.kind_ne⟩⟩⟩⟩⟩
  | assignment hassigns => exact hassigns.kind_ne
  | comparison hcolumn hequals hcondition =>
    refine List.forall_mem_cons.mpr ⟨by simp [hcolumn.kind], List.forall_mem_cons.mpr ⟨?_, ?_⟩⟩
    · simp [hequals]
    · exact hcondition.kind_ne

end Grammar

open Grammar

/-! ### The place of an error -/

/-- What the grammar spells parses without an end of input. -/
theorem Grammar.Spells.parse_eq_ok {word : List Token} {phrase : Phrase} (h : Spells word phrase) :
    parse word = .ok phrase := by
  have hcontent : content word = word :=
    List.takeWhile_eq_self_iff.mpr fun t ht => by simpa using h.kind_ne t ht
  rw [parse_eq_ok_iff, hcontent]
  exact h

/-- An end of input, or nothing at all, stands behind the tokens before it. -/
theorem exists_eq_content_append (tokens : List Token) :
    ∃ rest, tokens = content tokens ++ rest ∧ ∀ t ∈ rest.head?, t.kind = .endOfInput := by
  refine ⟨tokens.dropWhile (·.kind ≠ .endOfInput), List.takeWhile_append_dropWhile.symm, ?_⟩
  intro t ht
  have hstop := List.head?_dropWhile_not (fun t : Token => decide (t.kind ≠ .endOfInput)) tokens
  rw [Option.mem_def.mp ht] at hstop
  simpa using hstop

theorem kind_ne_of_mem_content {tokens : List Token} {t : Token} (h : t ∈ content tokens) :
    t.kind ≠ .endOfInput := by
  simpa using List.mem_takeWhile_imp h

theorem content_append {before : List Token} (h : ∀ t ∈ before, t.kind ≠ .endOfInput)
    (tokens : List Token) : content (before ++ tokens) = before ++ content tokens :=
  List.takeWhile_append_of_pos fun t ht => by simpa using h t ht

theorem content_cons_end {e : Token} (h : e.kind = .endOfInput) (rest : List Token) :
    content (e :: rest) = [] := by
  simp [content, h]

theorem ending_append_cons {before : List Token} {e : Token}
    (h : ∀ t ∈ before, t.kind ≠ .endOfInput) (he : e.kind = .endOfInput) (rest : List Token) :
    ending (before ++ e :: rest) = ⟨e.line, e.offset⟩ := by
  have hnone : before.find? (fun t => decide (t.kind = .endOfInput)) = none :=
    List.find?_eq_none.mpr fun t ht => by simpa using h t ht
  simp [ending, List.find?_append, hnone, he]

/-- A token stands at an index; behind all tokens any end of input does. -/
def StandsAt (tokens : List Token) (i : ℕ) (t : Token) : Prop :=
  tokens[i]? = some t ∨ (i = tokens.length ∧ t.kind = .endOfInput)

theorem getElem?_append_length (before tokens : List Token) :
    (before ++ tokens)[before.length]? = tokens.head? := by
  rw [List.getElem?_append_right (Nat.le_refl _), Nat.sub_self, List.head?_eq_getElem?]

/-- What stands at an index is what the parser sees behind the tokens before it. -/
theorem StandsAt.head?_content {before after rest : List Token} {t : Token}
    (h : StandsAt (before ++ (after ++ rest)) before.length t)
    (hafter : ∀ t ∈ after, t.kind ≠ .endOfInput) (hrest : ∀ t ∈ rest.head?, t.kind = .endOfInput)
    (others : List Token) : (content (t :: others)).head? = after.head? := by
  rcases after with - | ⟨t', after⟩
  · have hend : t.kind = .endOfInput := by
      rcases h with h | ⟨-, hkind⟩
      · rw [List.nil_append, getElem?_append_length] at h
        exact hrest t h
      · exact hkind
    rw [content_cons_end hend]
  · obtain rfl : t' = t := by
      rcases h with h | ⟨hlength, -⟩
      · simpa using h
      · simp only [List.length_append, List.length_cons] at hlength
        omega
    rw [content, List.takeWhile_cons_of_pos (by simpa using hafter t' (by simp))]
    rfl

/-- **The token at fault.** Where a token sequence fails, the tokens up to some index begin an
accepted sequence, with the token at that index behind them they begin none, and the error has its
place. If there is no such token, there is no end of input either, and the error is at the end. -/
theorem exists_misfit {tokens : List Token} {e : SourceError} (h : parse tokens = .error e) :
    ∃ i ≤ tokens.length,
      (∀ t, tokens[i]? = some t → e.line = t.line ∧ e.offset = t.offset) ∧
      (i = tokens.length → (∀ t ∈ tokens, t.kind ≠ .endOfInput) ∧
        e.line = (ending tokens).line ∧ e.offset = (ending tokens).offset) ∧
      (∃ more phrase, parse (tokens.take i ++ more) = .ok phrase) ∧
      ∀ t, StandsAt tokens i t →
        ∀ rest phrase, parse (tokens.take i ++ t :: rest) ≠ .ok phrase := by
  rw [parse] at h
  rcases hwhole : Parser.whole (content tokens) with failure | phrase
  case ok => simp [hwhole] at h
  obtain rfl : failure.toError (ending tokens) = e := by simpa [hwhole] using h
  obtain ⟨before, after, hcontent, hfound, ⟨more, phrase, hmore⟩, hother⟩ :=
    exists_of_whole_eq_error hwhole
  have hkinds : ∀ t ∈ before ++ after, t.kind ≠ .endOfInput := by
    rw [← hcontent]
    exact fun t => kind_ne_of_mem_content
  obtain ⟨hbefore, hafter⟩ := List.forall_mem_append.mp hkinds
  obtain ⟨rest, htokens, hrest⟩ := exists_eq_content_append tokens
  rw [hcontent, List.append_assoc] at htokens
  have htake : tokens.take before.length = before := by rw [htokens, List.take_left]
  refine ⟨before.length, by rw [htokens, List.length_append]; omega, ?_, ?_, ?_, ?_⟩
  · intro t ht
    rcases after with - | ⟨t', after⟩
    · -- the parser came to the end, and the token is the end of input
      obtain ⟨rest, rfl⟩ : ∃ rest', rest = t :: rest' := by
        rw [htokens, List.nil_append, getElem?_append_length] at ht
        exact List.head?_eq_some_iff.mp ht
      have hend := hrest t rfl
      rw [List.nil_append] at htokens
      simp [Parser.Failure.toError, hfound, htokens, ending_append_cons hbefore hend]
    · obtain rfl : t' = t := by simpa [htokens] using ht
      simp [Parser.Failure.toError, hfound]
  · intro hlength
    have hnil : after ++ rest = [] := by
      rw [htokens, List.length_append] at hlength
      exact List.length_eq_zero_iff.mp (by omega)
    obtain ⟨rfl, rfl⟩ := List.append_eq_nil_iff.mp hnil
    rw [List.append_nil, List.append_nil] at htokens
    refine ⟨fun t ht => hbefore t (htokens ▸ ht), ?_⟩
    simp [Parser.Failure.toError, hfound]
  · refine ⟨more, phrase, ?_⟩
    rw [htake]
    exact hmore.parse_eq_ok
  · intro t ht others phrase' hparse
    rw [htokens] at ht
    have hhead := ht.head?_content hafter hrest others
    rw [htake, parse_eq_ok_iff, content_append hbefore, ← whole_eq_ok_iff,
      hother _ hhead] at hparse
    cases hparse

/-- The place of the token at an index; behind all tokens, the place where the last of them ends. -/
def placeAt (tokens : List Token) (i : ℕ) : Location :=
  match tokens[i]? with
  | some t => ⟨t.line, t.offset⟩
  | none =>
    match tokens.getLast? with
    | some t => ⟨t.line, t.offset + t.text.length⟩
    | none => ⟨1, 0⟩

/-- Without an end of input the tokens end behind the last of them, as long as its offset does not
wrap around. -/
theorem ending_eq_placeAt {tokens : List Token} (h : ∀ t ∈ tokens, t.kind ≠ .endOfInput)
    (hsum : ∀ t ∈ tokens.getLast?, t.offset + t.text.length < 2 ^ 64) :
    ending tokens = placeAt tokens tokens.length := by
  have hnone : tokens.find? (fun t => decide (t.kind = .endOfInput)) = none :=
    List.find?_eq_none.mpr fun t ht => by simpa using h t ht
  have hindex : tokens[tokens.length]? = none := List.getElem?_eq_none (Nat.le_refl _)
  rw [ending, hnone, placeAt, hindex]
  rcases hlast : tokens.getLast? with - | t
  · rfl
  · have hmod := Nat.mod_eq_of_lt (hsum t hlast)
    simpa [UInt64.size] using hmod

/-- No cause that keeps a procedure from being made has the code of the grammar. -/
theorem code_ne_of_mapError {d : Diagnostic} {result : Except TargetError String}
    (h : result.mapError TargetError.diagnostic = .error d) : d.code ≠ "PARSE_ERROR" := by
  rcases result with cause | text
  · obtain rfl : cause.diagnostic = d := by simpa [Except.mapError] using h
    cases cause <;> simp [TargetError.diagnostic, TargetError.code]
  · simp [Except.mapError] at h

/-- A source is rejected with that code at the place of the error of its tokens. -/
theorem exists_parse_error_of_compile {settings : Settings} {source : String} {d : Diagnostic}
    (h : settings.compile source = .error d) (hcode : d.code = "PARSE_ERROR") :
    ∃ e, parse (Token.scan source) = .error e ∧ d.location = some ⟨e.line, e.offset⟩ := by
  rw [Settings.compile, Settings.compileWith] at h
  rcases hparse : parse (Token.scan source) with e | phrase
  · obtain rfl : e.diagnostic = d := by simpa [hparse] using h
    exact ⟨e, rfl, rfl⟩
  · rw [hparse] at h
    dsimp only at h
    split at h
    · exact absurd hcode (code_ne_of_mapError h)
    · exact absurd hcode (code_ne_of_mapError h)

/-- **Errors point at the first token that no rule could have there.** Let a token sequence fail.
There is an index such that the error has the place of its token (behind all tokens, if there is no
end of input: the place where the last one ends), the tokens before it begin an accepted sequence,
and no accepted sequence goes on with the token at the index (behind all tokens: with an end of
input). For a source text, the place is inside the source and the line is that of the offset. -/
theorem parse_error_points_at_misfit :
    (∀ (tokens : List Token) (e : SourceError), parse tokens = .error e →
      ((∀ t ∈ tokens, t.kind ≠ .endOfInput) →
        ∀ t ∈ tokens.getLast?, t.offset + t.text.length < 2 ^ 64) →
      ∃ i ≤ tokens.length,
        (⟨e.line, e.offset⟩ : Location) = placeAt tokens i ∧
        (i = tokens.length → ∀ t ∈ tokens, t.kind ≠ .endOfInput) ∧
        (∃ more phrase, parse (tokens.take i ++ more) = .ok phrase) ∧
        ∀ t, StandsAt tokens i t →
          ∀ rest phrase, parse (tokens.take i ++ t :: rest) ≠ .ok phrase) ∧
    ∀ (settings : Settings) (source : String) (d : Diagnostic),
      settings.compile source = .error d → d.code = "PARSE_ERROR" →
      ∃ place, d.location = some place ∧ place.offset ≤ source.length ∧
        place.line = 1 + (source.toList.take place.offset).count '\n' := by
  constructor
  · intro tokens e h hsum
    obtain ⟨i, hi, hplace, hend, hmore, hnone⟩ := exists_misfit h
    refine ⟨i, hi, ?_, fun hlength => (hend hlength).1, hmore, hnone⟩
    rcases Nat.eq_or_lt_of_le hi with rfl | hlt
    · obtain ⟨hkinds, hline, hoffset⟩ := hend rfl
      rw [← ending_eq_placeAt hkinds (hsum hkinds), hline, hoffset]
    · have hget := List.getElem?_eq_getElem hlt
      obtain ⟨hline, hoffset⟩ := hplace _ hget
      rw [placeAt, hget, hline, hoffset]
  · intro settings source d h hcode
    obtain ⟨e, hparse, hlocation⟩ := exists_parse_error_of_compile h hcode
    obtain ⟨i, hi, hplace, hend, -, -⟩ := exists_misfit hparse
    -- a source has an end of input, so its tokens never run out
    have hlt : i < (Token.scan source).length := by
      refine Nat.lt_of_le_of_ne hi fun hlength => ?_
      obtain ⟨spans, hscan, -⟩ := Token.exists_covers_scan source
      have hmem : ∃ t ∈ Token.scan source, t.kind = .endOfInput := by
        rw [hscan]
        exact ⟨_, List.mem_append_right _ List.mem_cons_self, rfl⟩
      obtain ⟨t, ht, hkind⟩ := hmem
      exact (hend hlength).1 t ht hkind
    obtain ⟨hline, hoffset⟩ := hplace _ (List.getElem?_eq_getElem hlt)
    have hmem := Token.place_of_mem_scan (List.getElem_mem hlt)
    rw [← hline, ← hoffset] at hmem
    exact ⟨_, hlocation, hmem⟩

/-- A conditional on two lines without `то`. -/
def withoutThen : String := "если гр10102212 == 1\nгр10103206 = 2"

/-- Its error is at the column on the second line. Up to there it begins a rule, and no rule goes on
with that column. -/
theorem parse_error_points_at_misfit_withoutThen :
    (∃ i ≤ (Token.scan withoutThen).length,
      ⟨2, 21⟩ = placeAt (Token.scan withoutThen) i ∧
      (∃ more phrase, parse ((Token.scan withoutThen).take i ++ more) = .ok phrase) ∧
      ∀ t, StandsAt (Token.scan withoutThen) i t →
        ∀ rest phrase, parse ((Token.scan withoutThen).take i ++ t :: rest) ≠ .ok phrase) ∧
    ∃ d place, Settings.compile ⟨"Validate", 4⟩ withoutThen = .error d ∧
      d.location = some place ∧ place.offset ≤ withoutThen.length ∧
      place.line = 1 + (withoutThen.toList.take place.offset).count '\n' := by
  have hparse : parse (Token.scan withoutThen) =
      .error ⟨"Expected 'то' after condition, found 'гр10103206'", 2, 21⟩ := by decide +kernel
  have hlast : (Token.scan withoutThen).getLast? = some ⟨.endOfInput, "", 2, 35⟩ := by
    decide +kernel
  have hcompile : ∃ d, Settings.compile ⟨"Validate", 4⟩ withoutThen = .error d ∧
      d.code = "PARSE_ERROR" := by
    rw [Settings.compile, Settings.compileWith, hparse]
    exact ⟨_, rfl, rfl⟩
  obtain ⟨hmisfit, hsource⟩ := parse_error_points_at_misfit
  constructor
  · obtain ⟨i, hi, hplace, -, hmore, hnone⟩ := hmisfit _ _ hparse fun _ => by rw [hlast]; simp
    exact ⟨i, hi, hplace, hmore, hnone⟩
  · obtain ⟨d, hd, hcode⟩ := hcompile
    obtain ⟨place, hlocation, hoffset, hline⟩ := hsource _ _ d hd hcode
    exact ⟨d, place, hd, hlocation, hoffset, hline⟩

end Phrase

end RegisterRules
