import RegisterRules.Compile
import RegisterRules.Document.Phrase
import RegisterRules.Document.Rule
import RegisterRules.Document.Token
import RegisterRules.Json.Printer
import RegisterRules.Text.Utf8

/-!
# Traces of a compilation

Two observers watch a compilation. The recorder keeps what it is shown. The journal writes each
stage as a JSON document, followed by a line break, to a writer that may accept only so many bytes:
once a document does not fit, as much of it as fits is written and its line break is not.

## Main definitions

* `Record`, `Record.observer`: the recorder.
* `Writer`, `Writer.put`: a writer with a limit.
* `Journal.observer`: the journal.
-/

namespace RegisterRules

/-- What a compilation has shown. -/
structure Record where
  tokens : List Token := []
  phrase : Option Phrase := none
  rule : Option Rule := none

/-- The observer that keeps what it is shown. -/
def Record.observer : Observer Record where
  sawTokens tokens record := { record with tokens }
  sawPhrase phrase record := { record with phrase := some phrase }
  sawRule rule record := { record with rule := some rule }

/-- A writer and the bytes it has taken, at most `limit` of them if there is a limit. -/
structure Writer where
  limit : Option Nat := none
  taken : List UInt8 := []
deriving DecidableEq

namespace Writer

/-- The bytes of a sequence for which there is room. -/
def fitting (w : Writer) (bytes : List UInt8) : List UInt8 :=
  match w.limit with
  | none => bytes
  | some limit => bytes.take (limit - w.taken.length)

/-- Write bytes as far as there is room, and say whether there was room for all of them. -/
def put (w : Writer) (bytes : List UInt8) : Writer × Bool :=
  let fits := w.fitting bytes
  ({ w with taken := w.taken ++ fits }, fits.length == bytes.length)

/-- Write a document and, if it was written completely, a line break. -/
def putDocument (w : Writer) (style : Json.Style) (doc : Json) : Writer :=
  match w.put (Text.bytes (doc.print style)) with
  | (w, true) => (w.put (Text.bytes "\n")).1
  | (w, false) => w

/-- What has been written, as text; a character that the limit cuts off is left out. -/
def text (w : Writer) : String := Text.wholeCharacters w.taken

end Writer

namespace Journal

/-- The document of a stage. -/
def stage (name : String) (data : Json) : Json :=
  .object [("stage", .string name), ("data", data)]

/-- The document of the tokens. -/
def tokensDocument (tokens : List Token) : Json := stage "tokens" (.array (tokens.map Token.toJson))

/-- The document of the phrase. -/
def phraseDocument (phrase : Phrase) : Json := stage "ast" phrase.toJson

/-- The document of the rule. -/
def ruleDocument (rule : Rule) : Json := stage "rule" rule.toJson

/-- The observer that writes each stage as a document. -/
def observer (style : Json.Style) : Observer Writer where
  sawTokens tokens writer := writer.putDocument style (tokensDocument tokens)
  sawPhrase phrase writer := writer.putDocument style (phraseDocument phrase)
  sawRule rule writer := writer.putDocument style (ruleDocument rule)

end Journal

end RegisterRules
