/-! # Kinds of tokens -/

namespace ScriptSyntax

/-- What a token is: a mark, a literal or a name, a keyword, or the end of the input. -/
inductive TokenKind where
  | leftParen | rightParen | leftBrace | rightBrace | comma | dot | semicolon
  | minus | plus | slash | star
  | bang | bangEqual | equal | equalEqual | greater | greaterEqual | less | lessEqual
  | identifier | string | number
  | andKeyword | classKeyword | elseKeyword | falseKeyword | funKeyword | forKeyword
  | ifKeyword | nilKeyword | orKeyword | printKeyword | returnKeyword | superKeyword
  | thisKeyword | trueKeyword | varKeyword | whileKeyword
  | endOfInput
deriving DecidableEq, Repr

namespace TokenKind

/-- The name under which a kind is shown. -/
def name : TokenKind → String
  | leftParen => "LEFT_PAREN"
  | rightParen => "RIGHT_PAREN"
  | leftBrace => "LEFT_BRACE"
  | rightBrace => "RIGHT_BRACE"
  | comma => "COMMA"
  | dot => "DOT"
  | semicolon => "SEMICOLON"
  | minus => "MINUS"
  | plus => "PLUS"
  | slash => "SLASH"
  | star => "STAR"
  | bang => "BANG"
  | bangEqual => "BANG_EQUAL"
  | equal => "EQUAL"
  | equalEqual => "EQUAL_EQUAL"
  | greater => "GREATER"
  | greaterEqual => "GREATER_EQUAL"
  | less => "LESS"
  | lessEqual => "LESS_EQUAL"
  | identifier => "IDENTIFIER"
  | string => "STRING"
  | number => "NUMBER"
  | andKeyword => "AND"
  | classKeyword => "CLASS"
  | elseKeyword => "ELSE"
  | falseKeyword => "FALSE"
  | funKeyword => "FUN"
  | forKeyword => "FOR"
  | ifKeyword => "IF"
  | nilKeyword => "NIL"
  | orKeyword => "OR"
  | printKeyword => "PRINT"
  | returnKeyword => "RETURN"
  | superKeyword => "SUPER"
  | thisKeyword => "THIS"
  | trueKeyword => "TRUE"
  | varKeyword => "VAR"
  | whileKeyword => "WHILE"
  | endOfInput => "EOF"

/-- The marks and operators. One that starts with another stands before it. -/
def symbols : List (List Char × TokenKind) :=
  [ (['!', '='], bangEqual), (['=', '='], equalEqual),
    (['>', '='], greaterEqual), (['<', '='], lessEqual),
    (['('], leftParen), ([')'], rightParen), (['\x7b'], leftBrace), (['\x7d'], rightBrace),
    ([','], comma), (['.'], dot), ([';'], semicolon),
    (['-'], minus), (['+'], plus), (['/'], slash), (['*'], star),
    (['!'], bang), (['='], equal), (['>'], greater), (['<'], less) ]

/-- The words that are no identifiers. -/
def keywords : List (List Char × TokenKind) :=
  [ ("and".toList, andKeyword), ("class".toList, classKeyword), ("else".toList, elseKeyword),
    ("false".toList, falseKeyword), ("for".toList, forKeyword), ("fun".toList, funKeyword),
    ("if".toList, ifKeyword), ("nil".toList, nilKeyword), ("or".toList, orKeyword),
    ("print".toList, printKeyword), ("return".toList, returnKeyword),
    ("super".toList, superKeyword), ("this".toList, thisKeyword), ("true".toList, trueKeyword),
    ("var".toList, varKeyword), ("while".toList, whileKeyword) ]

/-- The kind of a word. -/
def ofWord (word : List Char) : TokenKind :=
  (keywords.lookup word).getD identifier

/-- The keywords that begin a statement. -/
def statementStarts : List TokenKind :=
  [ classKeyword, funKeyword, varKeyword, forKeyword, ifKeyword, whileKeyword, printKeyword,
    returnKeyword ]

/-- Whether a token of this kind begins a statement. -/
def startsStatement (kind : TokenKind) : Bool := statementStarts.contains kind

end TokenKind

end ScriptSyntax
