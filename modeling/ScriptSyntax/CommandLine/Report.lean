import ScriptSyntax.CommandLine.Arguments
import ScriptSyntax.Parenthesized
import ScriptSyntax.Text.Quoted
import ScriptSyntax.TokenStream
/-! # What a command answers

A command answers with an exit code, the result on the standard output, and diagnostics on the
standard error. The code is 0 if all is well, 65 if the text has errors, 1 if it cannot be read, and
2 if the arguments are no command.
-/

namespace ScriptSyntax.CommandLine

/-- The diagnostics are the errors. What is logged beside them on the standard error is no part of them:
the warning that the nesting limit is reached, which is logged unless the environment asks for less, and
the lines that the verbose flag asks for. Nor are the colours that errors have on a terminal. -/
structure Report where
  code : UInt32
  output : String := ""
  diagnostics : String := ""
deriving DecidableEq, Repr

/-- Why an input has no text. -/
inductive ReadFailure where
  /-- The system gave no bytes, for this reason. -/
  | system (reason : String)
  /-- The bytes are not UTF-8. -/
  | notText
deriving DecidableEq, Repr

namespace ReadFailure

def reason : ReadFailure → String
  | system reason => reason
  | notText => "stream did not contain valid UTF-8"

/-- What is told of an input without a text. A file is told by its path. -/
def message (failure : ReadFailure) : Input → String
  | .standard =>
    "Error \x7b kind: InvalidData, message: " ++ Text.quoted failure.reason ++ " \x7d"
  | .file path => Text.quoted ("failed to read '" ++ path ++ "': " ++ failure.reason)

end ReadFailure

/-- A line for each text, as a diagnostic. -/
def errorLines (messages : List String) : String :=
  String.join (messages.map fun message => "error: " ++ message ++ "\n")

/-- The text that bytes stand for. -/
def decode (bytes : ByteArray) : Except ReadFailure String :=
  match String.fromUTF8? bytes with
  | some text => .ok text
  | none => .error .notText

/-- The report on a text that has been read, with the errors found in it. -/
def reportReading (reading : Reading String) : Report where
  code := if reading.hasErrors then 65 else 0
  output := reading.value ++ "\n"
  diagnostics := errorLines (reading.errors.map SyntaxError.display)

/-- The report on a text whose front is no token. -/
def reportLexicalError (e : LexicalError) : Report where
  code := 65
  diagnostics := errorLines [e.display]

/-- The tokens of a text, one a line. -/
def reportTokens (tokens : List Token) : Report where
  code := 0
  output := String.join (tokens.map fun t => t.display ++ "\n")

/-- The parenthesized form of an expression or a program. -/
def parenthesized (stream : TokenStream) (expressionOnly strictSemicolons : Bool) :
    Reading String :=
  if expressionOnly then
    let reading := (stream.readExpression ⟨strictSemicolons⟩).1
    ⟨(reading.value.map Expr.parenthesized).getD "", reading.errors⟩
  else
    let reading := (stream.readProgram ⟨strictSemicolons⟩).1
    ⟨Stmt.allParenthesized reading.value, reading.errors⟩

/-- The answer to an action on a text. -/
def Action.report (action : Action) (text : String) : Report :=
  match ScriptSyntax.tokenize text with
  | .error e => reportLexicalError e
  | .ok tokens =>
    match action with
    | .tokenize => reportTokens tokens
    | .parse expressionOnly strictSemicolons =>
      reportReading (parenthesized (.ofTokens tokens) expressionOnly strictSemicolons)

/-- The answer to a command whose input has these bytes, or none. -/
def Command.report (command : Command) (content : Except ReadFailure ByteArray) : Report :=
  match content >>= decode with
  | .ok text => command.action.report text
  | .error failure =>
    { code := 1, diagnostics := "Error: " ++ failure.message command.input ++ "\n" }

def usage : String :=
  "Usage: [-v] tokenize PATH\n" ++
  "       [-v] parse PATH [--expression] [--strict-semicolons]\n" ++
  "       --help | --version\n" ++
  "\n" ++
  "Prints the tokens or the syntax tree of a script. PATH is a file, or - for the standard input.\n"

/-- The answer to arguments that are no command. The usage stands for the longer help text, and for the
message that says which argument is wrong. -/
def NoCommand.report : NoCommand → Report
  | help => { code := 0, output := usage }
  | version => { code := 0, output := "loxtree 0.1.0\n" }
  | misuse => { code := 2, diagnostics := usage }

end ScriptSyntax.CommandLine
