import ScriptSyntax.TokenStream
/-! # Walking along a row of tokens

The grammar can also be read in place. The tokens stay as they are, and a cursor moves along them. It
has a buffer for errors and counts how deep it is in nested constructs.
-/

namespace ScriptSyntax

/-- A place in a row of tokens, and what is kept besides on the way. -/
structure Cursor where
  tokens : List Token
  position : Nat
  options : Options
  errors : List SyntaxError
  depth : Nat
deriving DecidableEq, Repr

/-- A cursor, and all that it was before, the last one first. -/
structure Trace where
  now : Cursor
  past : List Cursor
deriving Repr

/-- A walk ends with a value or the error that stopped it. It has no end if it looks at a place where
there is no token, counts the depth down from zero, or goes on for ever. -/
abbrev Walk (α : Type) := ExceptT SyntaxError (StateT Trace Option) α

namespace Walk

variable {α β : Type}

/-- How a walk ends that starts with a trace. -/
def run (walk : Walk α) (trace : Trace) : Option (Except SyntaxError α × Trace) := walk trace

/-- The walk that has no end. -/
def lost : Walk α := fun _ => none

def current : Walk Cursor := do return (← get).now

/-- Lets the cursor be another one. -/
def change (f : Cursor → Cursor) : Walk Unit :=
  modify fun trace => ⟨f trace.now, trace.now :: trace.past⟩

/-! ## Tokens -/

/-- The token at the cursor. -/
def peek : Walk Token := do
  let cursor ← current
  match cursor.tokens[cursor.position]? with
  | some t => return t
  | none => lost

/-- The token before the cursor, if there is one. -/
def previous : Walk (Option Token) := do
  let cursor ← current
  return if cursor.position = 0 then none else cursor.tokens[cursor.position - 1]?

def atEnd : Walk Bool := do return (← peek).kind = .endOfInput

/-- Whether the token at the cursor is accepted. The end of the input never is. -/
def check (accepts : TokenKind → Bool) : Walk Bool := do
  return !(← atEnd) && accepts (← peek).kind

/-- Moves behind the token at the cursor, but not behind the end of the input. -/
def advance : Walk (Option Token) := do
  if ← atEnd then previous
  else
    change fun cursor => { cursor with position := cursor.position + 1 }
    previous

/-- Moves behind the token at the cursor if it is accepted. -/
def takeIf (accepts : TokenKind → Bool) : Walk (Option Token) := do
  if ← check accepts then advance else return none

/-! ## Errors -/

/-- An error at the token at the cursor. -/
def errorHere (cause : SyntaxCause) : Walk SyntaxError := do
  return ⟨.ofToken (← peek), cause⟩

def record (e : SyntaxError) : Walk Unit :=
  change fun cursor => { cursor with errors := cursor.errors ++ [e] }

def expect (kind : TokenKind) (cause : SyntaxCause) : Walk Token := do
  match ← takeIf (· = kind) with
  | some t => return t
  | none => throw (← errorHere cause)

/-- A walk behind another one, whose value is dropped. -/
abbrev behind (walk : Walk α) (first : Walk β) : Walk α := do
  let _ ← first
  walk

/-- Moves on up to the place where a statement may start. -/
def skip : Walk Unit := do
  if ← atEnd then return ()
  else if (← previous).any (·.kind = .semicolon) then return ()
  else if (← peek).kind.startsStatement then return ()
  else skip.behind advance
partial_fixpoint

/-- Drops the token at the cursor, and all up to the place where a statement may start. -/
def synchronize : Walk Unit := skip.behind advance

/-- What a walk ends with, also where it was stopped. -/
abbrev attempt (walk : Walk α) : Walk (Except SyntaxError α) :=
  (ExceptT.run walk >>= fun result => pure (.ok result) :
    StateT Trace Option (Except SyntaxError (Except SyntaxError α)))

/-- Records the error that stops a walk, and goes on at the next statement. -/
abbrev recover (walk : Walk α) : Walk (Option α) := do
  match ← attempt walk with
  | .ok a => return some a
  | .error e =>
    record e
    synchronize
    return none

/-! ## Nesting -/

/-- Counts one level, unless there are too many. -/
def enter : Walk Unit := do
  if maxNesting ≤ (← current).depth then throw (← errorHere .tooDeep)
  else change fun cursor => { cursor with depth := cursor.depth + 1 }

/-- Counts one level back. -/
def leave : Walk Unit := do
  if (← current).depth = 0 then lost
  else change fun cursor => { cursor with depth := cursor.depth - 1 }

/-- A walk one level deeper. -/
abbrev nested (walk : Walk α) : Walk α := do
  enter
  let result ← attempt walk
  leave
  match result with
  | .ok a => return a
  | .error e => throw e

end Walk

end ScriptSyntax
