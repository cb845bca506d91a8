/-!
Tokens and keywords.

A token is what the scanner cuts out of the text of a program: its kind, its literal and the
line it starts on. A keyword has three spellings, one in English, one romanised and one in
Bengali script, and the three mean the same: only the literal of the token tells them apart.
A word that spells no keyword is an identifier.
-/

namespace Bhasha

/-- The kinds of token. -/
inductive Kind where
  /-- A character that starts no token. -/
  | illegal
  /-- The end of the text. -/
  | eof
  /-- A word that is not a keyword. -/
  | ident
  /-- A run of decimal digits. -/
  | int
  /-- A text between quotation marks. -/
  | str
  | assign
  | eq
  | bang
  | notEq
  | plus
  | minus
  | asterisk
  | slash
  | lt
  | gt
  | comma
  | semicolon
  | colon
  | lparen
  | rparen
  | lbrace
  | rbrace
  | lbracket
  | rbracket
  | kwFunction
  | kwLet
  | kwTrue
  | kwFalse
  | kwIf
  | kwElse
  | kwReturn
  /-- A run of blanks; the scanner skips it, so no token has this kind. -/
  | blank
deriving DecidableEq, Repr, Inhabited

namespace Kind

/-- The name of a kind, as it stands in messages: signs name themselves. -/
def name : Kind → String
  | illegal => "ILLEGAL"
  | eof => "EOF"
  | ident => "IDENT"
  | int => "INT"
  | str => "STRING"
  | assign => "="
  | eq => "=="
  | bang => "!"
  | notEq => "!="
  | plus => "+"
  | minus => "-"
  | asterisk => "*"
  | slash => "/"
  | lt => "<"
  | gt => ">"
  | comma => ","
  | semicolon => ";"
  | colon => ":"
  | lparen => "("
  | rparen => ")"
  | lbrace => "\x7b"
  | rbrace => "\x7d"
  | lbracket => "["
  | rbracket => "]"
  | kwFunction => "FUNCTION"
  | kwLet => "LET"
  | kwTrue => "TRUE"
  | kwFalse => "FALSE"
  | kwIf => "IF"
  | kwElse => "ELSE"
  | kwReturn => "RETURN"
  | blank => "WHITESPACE"

/-- Every kind, in the order of the type. -/
def all : List Kind :=
  [illegal, eof, ident, int, str, assign, eq, bang, notEq, plus, minus, asterisk, slash, lt, gt,
    comma, semicolon, colon, lparen, rparen, lbrace, rbrace, lbracket, rbracket, kwFunction,
    kwLet, kwTrue, kwFalse, kwIf, kwElse, kwReturn, blank]

/-- The kind of a given name. -/
def ofName? (s : String) : Option Kind :=
  all.find? fun k => k.name == s

/-- The spellings of the keywords. -/
def keywords : List (String × Kind) :=
  [("fn", kwFunction), ("kaj", kwFunction), ("কাজ", kwFunction),
    ("let", kwLet), ("dhori", kwLet), ("ধরি", kwLet),
    ("true", kwTrue), ("sotto", kwTrue), ("সত্য", kwTrue),
    ("false", kwFalse), ("mittha", kwFalse), ("মিথ্যা", kwFalse),
    ("if", kwIf), ("jodi", kwIf), ("যদি", kwIf),
    ("else", kwElse), ("nahole", kwElse), ("নাহলে", kwElse),
    ("return", kwReturn), ("ferau", kwReturn), ("ফেরাও", kwReturn)]

/-- The kind of a word: that of the keyword it spells, or else an identifier. -/
def ofWord (word : String) : Kind :=
  (keywords.lookup word).getD ident

end Kind

/-- A token of the text of a program. -/
structure Token where
  /-- What the token is. -/
  kind : Kind
  /-- Its text; for a string, the text between the quotation marks. -/
  literal : String
  /-- The line it starts on, counted from one. -/
  line : Nat
deriving DecidableEq, Repr, Inhabited

end Bhasha
