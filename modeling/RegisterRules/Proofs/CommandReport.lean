import RegisterRules.Command
import RegisterRules.Proofs.LimitedJournal

/-!
# What the command tells of a compilation

The command tells the outcome of a compilation in two ways, by its exit code and on standard output.
As text, standard output has the procedure or nothing. As a document it has the whole outcome in
either case: the procedure, character by character, or the report of the failure with all its parts,
whatever quotes, line breaks and letters stand in them. A trace goes to standard error and touches
neither.

What a run does is said once for each outcome. The rest is that the document of an outcome can be
read, and that an observed compilation has the outcome of an unobserved one.

## Main definitions

* `Command.outcome?`: the outcome that a document reports.

## Main results

* `Command.outcome?_resultDocument`: the document of an outcome reports it.
* `Command.execute_of_ok`, `Command.execute_of_error`: what the command does with an outcome.
* `Command.execute_reports`: exit code and standard output tell the outcome and do not depend on the
  trace.
-/

namespace RegisterRules

namespace Command

/-! ### Outcomes as documents -/

/-- The outcome of a compilation that a document reports. -/
def outcome? (doc : Json) : Option (Except Diagnostic String) := do
  match ← (← doc.field? "ok").bool? with
  | true => return .ok (← (← doc.field? "code").string?)
  | false => return .error (← Diagnostic.ofJson? (← doc.field? "error"))

/-- **The document of an outcome reports it.** -/
theorem outcome?_resultDocument (result : Except Diagnostic String) :
    outcome? (resultDocument result) = some result := by
  cases result with
  | ok code => rfl
  | error d =>
    have hok : (resultDocument (.error d)).field? "ok" = some (.bool false) := rfl
    have herror : (resultDocument (.error d)).field? "error" = some d.toJson := rfl
    simp only [outcome?, hok, herror, Option.bind_eq_bind, Option.bind_some, Json.bool?,
      Diagnostic.ofJson?_toJson]
    rfl

theorem depth_resultDocument_le (result : Except Diagnostic String) :
    (resultDocument result).depth ≤ 3 := by
  cases result with
  | ok code => exact (by decide : 1 ≤ 3)
  | error d =>
    have hreport := d.depth_toJson_le
    simp only [resultDocument, Json.depth, Json.fieldDepth]
    omega

/-! ### Runs of the command -/

/-- The outcome is that of the compilation, traced or not. -/
theorem compileTraced_fst (c : Command) (source : String) :
    (c.compileTraced source).1 = c.settings.compile source := by
  rw [compileTraced]
  split
  · exact c.settings.compileWith_fst _ source _
  · rfl

/-- What the command does with a procedure. -/
theorem execute_of_ok {c : Command} {source code : String}
    (h : c.settings.compile source = .ok code) :
    c.execute source =
      ⟨0, if c.json then (resultDocument (.ok code)).print c.style ++ "\n" else code,
        (c.compileTraced source).2⟩ := by
  have hresult := c.compileTraced_fst source
  rw [execute]
  rcases htraced : c.compileTraced source with ⟨result, trace⟩
  obtain rfl : result = .ok code := by rwa [htraced, h] at hresult
  cases c.json <;> rfl

/-- What the command does with the report of a failure. -/
theorem execute_of_error {c : Command} {source : String} {d : Diagnostic}
    (h : c.settings.compile source = .error d) :
    c.execute source =
      ⟨1, if c.json then (resultDocument (.error d)).print c.style ++ "\n" else "",
        (c.compileTraced source).2 ++ if c.json then "" else "error: " ++ d.display ++ "\n"⟩ := by
  have hresult := c.compileTraced_fst source
  rw [execute]
  rcases htraced : c.compileTraced source with ⟨result, trace⟩
  obtain rfl : result = .error d := by rwa [htraced, h] at hresult
  cases c.json with
  | false => simp [String.append_assoc]
  | true => simp

/-- The exit code says whether there is a procedure. -/
theorem exitCode_execute (c : Command) (source : String) :
    (c.execute source).exitCode = if (c.settings.compile source).isOk then 0 else 1 := by
  cases h : c.settings.compile source with
  | ok code => rw [execute_of_ok h]; rfl
  | error d => rw [execute_of_error h]; rfl

/-- Standard output has the document of the outcome, or the procedure if there is one. -/
theorem stdout_execute (c : Command) (source : String) :
    (c.execute source).stdout =
      if c.json then (resultDocument (c.settings.compile source)).print c.style ++ "\n"
      else (c.settings.compile source).toOption.getD "" := by
  cases h : c.settings.compile source with
  | ok code => rw [execute_of_ok h]; rfl
  | error d => rw [execute_of_error h]; rfl

/-- **The command tells the outcome without loss.** The exit code is `0` if there is a procedure and
`1` if not. As text, standard output is the procedure, or empty if there is none. As a document it
is one document and a line break, and what is read from it is the outcome of the compilation: the
procedure, or the report with its code, message, suggestion and place. Neither depends on whether
the compilation is traced. -/
theorem execute_reports (c : Command) (source : String) :
    ((c.execute source).exitCode = 0 ↔ ∃ code, c.settings.compile source = .ok code) ∧
    ((c.execute source).exitCode = 1 ↔ ∃ d, c.settings.compile source = .error d) ∧
    (c.json = false →
      (∀ code, c.settings.compile source = .ok code → (c.execute source).stdout = code) ∧
      ∀ d, c.settings.compile source = .error d → (c.execute source).stdout = "") ∧
    (c.json = true → ∃ text doc, (c.execute source).stdout = text ++ "\n" ∧
      Json.parse? text = some doc ∧ outcome? doc = some (c.settings.compile source)) ∧
    ∀ trace, ({ c with trace := trace }.execute source).stdout = (c.execute source).stdout ∧
      ({ c with trace := trace }.execute source).exitCode = (c.execute source).exitCode := by
  rw [exitCode_execute, stdout_execute]
  refine ⟨?_, ?_, fun hjson => ⟨fun code h => ?_, fun d h => ?_⟩, fun hjson => ?_, fun trace => ?_⟩
  · cases c.settings.compile source <;> simp [Except.isOk, Except.toBool]
  · cases c.settings.compile source <;> simp [Except.isOk, Except.toBool]
  · rw [hjson, h]
    rfl
  · rw [hjson, h]
    rfl
  · rw [hjson]
    have hdepth := (depth_resultDocument_le (c.settings.compile source)).trans_lt
      (by decide : 3 < Json.nestingLimit)
    exact ⟨_, _, rfl, Json.parse?_print_of_lt hdepth _, outcome?_resultDocument _⟩
  · rw [stdout_execute, exitCode_execute]
    exact ⟨rfl, rfl⟩

end Command

end RegisterRules
