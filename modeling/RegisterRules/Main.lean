import RegisterRules.Command

/-!
# The program

Reads the rule from where the command line says it is, and prints what the command makes of it. A
rule that cannot be read, and arguments that cannot be understood, give exit code `2`.
-/

namespace RegisterRules

namespace Command

/-- A short description of the command line. -/
def helpText : String :=
  "Makes validation procedures from the rules of tax registers.\n\n" ++
  "Arguments: [OPTIONS] [RULE]\n\n" ++
  "The rule is read from standard input when neither RULE nor a file is given.\n\n" ++
  "Options:\n" ++
  "  -f, --file <FILE>            Take the rule from a file\n" ++
  "      --procedure-name <NAME>  Name the procedure [default: Validate]\n" ++
  "      --indent <N>             Indent each level by N spaces [default: 4]\n" ++
  "      --trace                  Write the stages to standard error\n" ++
  "      --json                   Print the result as a JSON document\n" ++
  "      --pretty                 Spread JSON documents over lines\n" ++
  "  -V, --version                Print the version\n"

/-- The text of the rule; `none` if it is not UTF-8. -/
def Source.load : Source → IO (Option String)
  | .rule text => return some text
  | .file path => return String.fromUTF8? (← IO.FS.readBinFile path)
  | .standardInput => return String.fromUTF8? (← (← IO.getStdin).readBinToEnd)

/-- Report a failure that precedes compilation. -/
def refuse (message : String) : IO UInt32 := do
  (← IO.getStderr).putStr ("error: " ++ message ++ "\n")
  return 2

end Command

end RegisterRules

open RegisterRules in
/-- Run the command line. -/
def main (args : List String) : IO UInt32 := do
  match Command.parse args with
  | .error usage => Command.refuse usage.message
  | .ok .version =>
    (← IO.getStdout).putStr Command.versionText
    return 0
  | .ok .help =>
    (← IO.getStdout).putStr Command.helpText
    return 0
  | .ok (.compile command) =>
    let rule ← try command.source.load catch _ => pure none
    match rule with
    | none => Command.refuse "the rule cannot be read"
    | some text =>
      let output := command.execute text
      (← IO.getStderr).putStr output.stderr
      (← IO.getStdout).putStr output.stdout
      return UInt32.ofNat output.exitCode
