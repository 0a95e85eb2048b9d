import ScriptSyntax.Source
import ScriptSyntax.Stmt.Parser
/-! # Token streams

A stream is the tokens that are still to be read and the place where the input ends. Reading an
expression or a program from it leaves the stream of the tokens behind.
-/

namespace ScriptSyntax

/-- What was read, and the errors found on the way. -/
structure Reading (α : Type) where
  value : α
  errors : List SyntaxError
deriving Repr

namespace Reading

variable {α : Type}

def hasErrors (r : Reading α) : Bool := !r.errors.isEmpty

/-- What was read, if there was no error. -/
def toExcept (r : Reading α) : Except (List SyntaxError) α :=
  if r.hasErrors then .error r.errors else .ok r.value

end Reading

/-- The tokens still to be read, and where the input ends. -/
structure TokenStream where
  tokens : List Token
  inputEnd : Location
deriving DecidableEq, Repr

namespace TokenStream

/-- The stream of a row of tokens. The input ends at the first token that says so; if there is none,
it ends where the last token stands. -/
def ofTokens (tokens : List Token) : TokenStream where
  tokens := tokens.takeWhile (·.kind != .endOfInput)
  inputEnd :=
    match (tokens.find? (·.kind == .endOfInput)).or tokens.getLast? with
    | some t => t.location
    | none => .nowhere

/-- The stream of a text. -/
def ofString (s : String) : Except LexicalError TokenStream := ofTokens <$> tokenize s

/-- What a parser reads from a stream, and the stream of what it leaves. -/
def read {α : Type} (stream : TokenStream) (options : Options) (p : Parser α) :
    Reading (Option α) × TokenStream :=
  let outcome := p.run ⟨options, stream.inputEnd⟩ stream.tokens
  let rest := { stream with tokens := outcome.rest }
  match outcome.result with
  | .ok a => (⟨some a, outcome.errors⟩, rest)
  | .error e => (⟨none, outcome.errors ++ [e]⟩, rest)

def readExpression (stream : TokenStream) (options : Options) :
    Reading (Option Expr) × TokenStream :=
  stream.read options (Expr.parser maxNesting)

/-- Declarations up to the end of the input. -/
def program : Parser (List Stmt) :=
  Parser.collectUntil (fun _ => false) (Stmt.parser maxNesting)

def readProgram (stream : TokenStream) (options : Options) : Reading (List Stmt) × TokenStream :=
  let (reading, rest) := stream.read options program
  (⟨reading.value.getD [], reading.errors⟩, rest)

end TokenStream

end ScriptSyntax
