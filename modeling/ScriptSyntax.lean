import ScriptSyntax.Main
import ScriptSyntax.Outline
import ScriptSyntax.Proofs.Grammar.Expr
import ScriptSyntax.Proofs.Grammar.Stmt
import ScriptSyntax.Proofs.Grammar.Written
import ScriptSyntax.Proofs.Parser.Takes
import ScriptSyntax.Proofs.Parser.Expr
import ScriptSyntax.Proofs.Parser.Stmt
import ScriptSyntax.Proofs.Parser.Local
import ScriptSyntax.Proofs.Parser.Confined
import ScriptSyntax.Proofs.Soundness.Expr
import ScriptSyntax.Proofs.Progress
import ScriptSyntax.Proofs.Session
import ScriptSyntax.Proofs.Soundness.Stmt
import ScriptSyntax.Proofs.Soundness.Program
import ScriptSyntax.Proofs.Completeness.Expr
import ScriptSyntax.Proofs.Completeness.Stmt
import ScriptSyntax.Proofs.Completeness.Program
import ScriptSyntax.Proofs.Parser.Compositional
import ScriptSyntax.Proofs.Composition
import ScriptSyntax.Proofs.Locality
import ScriptSyntax.Proofs.Sites
import ScriptSyntax.Proofs.Confinement
import ScriptSyntax.Proofs.Separation.Stmt
import ScriptSyntax.Proofs.Separation.Single
import ScriptSyntax.Proofs.Separation.Program
import ScriptSyntax.Proofs.Enclosure.Stmt
import ScriptSyntax.Proofs.Enclosure.Program
import ScriptSyntax.Proofs.Concatenation
import ScriptSyntax.Proofs.Strictness
import ScriptSyntax.Proofs.Omission.Places
import ScriptSyntax.Proofs.Omission.Stmt
import ScriptSyntax.Proofs.Omission.Program
import ScriptSyntax.Proofs.Parser.Rounds
import ScriptSyntax.Proofs.Termination
import ScriptSyntax.Proofs.Cursor.Walk
import ScriptSyntax.Proofs.Cursor.Grammar
import ScriptSyntax.Proofs.Cursor.Follows
import ScriptSyntax.Proofs.Cursor.Expr
import ScriptSyntax.Proofs.Cursor.Stmt
import ScriptSyntax.Proofs.Cursor.Session
import ScriptSyntax.Proofs.Cursor.Keeps
import ScriptSyntax.Proofs.Cursor.Lookahead
import ScriptSyntax.Proofs.Cursor.Boundary
import ScriptSyntax.Proofs.Lexical.Language
import ScriptSyntax.Proofs.Lexical.Front
import ScriptSyntax.Proofs.Lexical.Gap
import ScriptSyntax.Proofs.Lexical.Rounding
import ScriptSyntax.Proofs.Lexical.Tiles
import ScriptSyntax.Proofs.Lexical.Literals
import ScriptSyntax.Proofs.Lexical.Tokens
import ScriptSyntax.Proofs.Lexical.Layout
import ScriptSyntax.Proofs.Kinds.Parser
import ScriptSyntax.Proofs.Kinds.Grammar
import ScriptSyntax.Proofs.Kinds.Session
import ScriptSyntax.Proofs.Parenthesized.Term
import ScriptSyntax.Proofs.Parenthesized.Tokens
import ScriptSyntax.Proofs.Parenthesized.Expr
import ScriptSyntax.Proofs.Parenthesized.Stmt
import ScriptSyntax.Proofs.Parenthesized.Program
import ScriptSyntax.Proofs.ExitCode
import ScriptSyntax.Proofs.Lexical.Failure
import ScriptSyntax.Proofs.Scanner.Steps
import ScriptSyntax.Proofs.Scanner.Reads
import ScriptSyntax.Proofs.Scanner.Resumption
import ScriptSyntax.Proofs.Nesting.Landmarks
import ScriptSyntax.Proofs.Nesting.Probing
import ScriptSyntax.Proofs.Nesting.Reads
import ScriptSyntax.Proofs.Nesting.Program
import ScriptSyntax.Proofs.Lexical.Display
import ScriptSyntax.Proofs.Errors.Grammar
import ScriptSyntax.Proofs.Errors.Count
import ScriptSyntax.Proofs.Errors.Order
import ScriptSyntax.Proofs.Height.Program
