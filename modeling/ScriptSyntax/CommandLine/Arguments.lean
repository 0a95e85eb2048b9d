/-! # Command line arguments

The arguments name what to do with a text, the place of the text, and flags before or behind it.
They are read from left to right: the first one that asks for help or for the version ends the
reading, and so does the first one that is wrong.
-/

namespace ScriptSyntax.CommandLine

/-- Where a text is read from. -/
inductive Input where
  | standard
  | file (path : String)
deriving DecidableEq, Repr

/-- A single dash stands for the standard input. -/
def Input.ofPath (path : String) : Input := if path = "-" then standard else file path

/-- What to do with a text. -/
inductive Action where
  | tokenize
  | parse (expressionOnly strictSemicolons : Bool)
deriving DecidableEq, Repr

/-- What to do, and with which text. -/
structure Command where
  action : Action
  input : Input
deriving DecidableEq, Repr

/-- Why the arguments are no command. -/
inductive NoCommand where
  | help
  | version
  | misuse
deriving DecidableEq, Repr

inductive Flag where
  | verbose | help | version | expression | strictSemicolons
deriving DecidableEq, Repr

namespace Flag

def ofLong? : String → Option Flag
  | "--verbose" => some verbose
  | "--help" => some help
  | "--version" => some version
  | "--expression" => some expression
  | "--strict-semicolons" => some strictSemicolons
  | _ => none

def ofShort? : Char → Option Flag
  | 'v' => some verbose
  | 'h' => some help
  | 'V' => some version
  | _ => none

end Flag

/-- One argument by its form: flags, of which some may be unknown, the end of all flags, or a
word. -/
inductive Argument where
  | flags (flags : List (Option Flag))
  | endOfFlags
  | word (text : String)
deriving DecidableEq, Repr

/-- Two dashes start a flag of one word, and one dash a row of flags of one letter. -/
def Argument.ofString (s : String) : Argument :=
  match s.toList with
  | ['-', '-'] => endOfFlags
  | '-' :: '-' :: _ => flags [Flag.ofLong? s]
  | '-' :: letter :: letters => flags ((letter :: letters).map Flag.ofShort?)
  | _ => word s

/-- What was read so far behind the name of an action. -/
structure Draft where
  action : Action
  path : Option String := none
deriving DecidableEq, Repr

namespace Draft

/-- Takes a flag. A flag that chooses something may be given once. -/
def flag (draft : Draft) : Option Flag → Except NoCommand Draft
  | some .verbose => .ok draft
  | some .help => .error .help
  | some .expression =>
    match draft.action with
    | .parse false strict => .ok { draft with action := .parse true strict }
    | _ => .error .misuse
  | some .strictSemicolons =>
    match draft.action with
    | .parse expression false => .ok { draft with action := .parse expression true }
    | _ => .error .misuse
  | some .version | none => .error .misuse

/-- Takes the path of the text. There is one. -/
def word (draft : Draft) (path : String) : Except NoCommand Draft :=
  match draft.path with
  | none => .ok { draft with path := some path }
  | some _ => .error .misuse

/-- The command, once the path is there. -/
def command (draft : Draft) : Except NoCommand Command :=
  match draft.path with
  | some path => .ok ⟨draft.action, .ofPath path⟩
  | none => .error .misuse

/-- Reads the arguments behind the name of an action. Behind the end of all flags, every argument is
a word. -/
def read (draft : Draft) : List String → Except NoCommand Command
  | [] => draft.command
  | s :: rest =>
    match Argument.ofString s with
    | .flags flags => do (← flags.foldlM flag draft).read rest
    | .endOfFlags => do (← rest.foldlM word draft).command
    | .word path => do (← draft.word path).read rest

end Draft

/-- Takes a flag in front of the name of an action. -/
def leadingFlag : Option Flag → Except NoCommand Unit
  | some .verbose => .ok ()
  | some .help => .error .help
  | some .version => .error .version
  | _ => .error .misuse

/-- Reads the arguments of a request for help, which may name an action. -/
def readHelp : List String → NoCommand
  | [] | ["tokenize"] | ["parse"] | ["help"] => .help
  | _ => .misuse

/-- Reads all arguments. -/
def read : List String → Except NoCommand Command
  | [] => .error .misuse
  | s :: rest =>
    match Argument.ofString s with
    | .flags flags => do
      flags.forM leadingFlag
      read rest
    | .word "tokenize" => Draft.read ⟨.tokenize, none⟩ rest
    | .word "parse" => Draft.read ⟨.parse false false, none⟩ rest
    | .word "help" => .error (readHelp rest)
    | .endOfFlags | .word _ => .error .misuse

end ScriptSyntax.CommandLine
