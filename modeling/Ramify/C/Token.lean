import Ramify.Binary64
import Ramify.Position

namespace Ramify.C

inductive Keyword where
  | auto | bool | break_ | case_ | char | const | continue_ | default_ | do_ | double | else_
  | enum | external | float | for_ | goto | if_ | inline_ | int | long | register | restrict
  | return_ | short | signed | sizeof | static | struct | switch | typedef | union | unsigned
  | void | volatile | while_
deriving DecidableEq, Inhabited

namespace Keyword

def spelling : Keyword → String
  | auto => "auto"
  | bool => "_Bool"
  | break_ => "break"
  | case_ => "case"
  | char => "char"
  | const => "const"
  | continue_ => "continue"
  | default_ => "default"
  | do_ => "do"
  | double => "double"
  | else_ => "else"
  | enum => "enum"
  | external => "extern"
  | float => "float"
  | for_ => "for"
  | goto => "goto"
  | if_ => "if"
  | inline_ => "inline"
  | int => "int"
  | long => "long"
  | register => "register"
  | restrict => "restrict"
  | return_ => "return"
  | short => "short"
  | signed => "signed"
  | sizeof => "sizeof"
  | static => "static"
  | struct => "struct"
  | switch => "switch"
  | typedef => "typedef"
  | union => "union"
  | unsigned => "unsigned"
  | void => "void"
  | volatile => "volatile"
  | while_ => "while"

def name : Keyword → String
  | bool => "Bool"
  | k => k.spelling.capitalize

def all : List Keyword := [
  .auto, .bool, .break_, .case_, .char, .const, .continue_, .default_, .do_, .double, .else_,
  .enum, .external, .float, .for_, .goto, .if_, .inline_, .int, .long, .register, .restrict,
  .return_, .short, .signed, .sizeof, .static, .struct, .switch, .typedef, .union, .unsigned,
  .void, .volatile, .while_]

def ofSpelling? (word : String) : Option Keyword := all.find? (·.spelling == word)

end Keyword

inductive Punctuator where
  | leftBracket | rightBracket | leftParen | rightParen | leftBrace | rightBrace | dot | arrow
  | increment | decrement | ampersand | asterisk | plus | minus | tilde | exclamation | slash
  | percent | leftShift | rightShift | less | greater | lessEqual | greaterEqual | equalEqual
  | notEqual | caret | pipe | andAnd | orOr | question | colon | semicolon | ellipsis | equal
  | starEqual | slashEqual | percentEqual | plusEqual | minusEqual | leftShiftEqual
  | rightShiftEqual | andEqual | caretEqual | pipeEqual | comma | hash | hashHash
deriving DecidableEq, Inhabited

namespace Punctuator

def name : Punctuator → String
  | leftBracket => "LeftBracket"
  | rightBracket => "RightBracket"
  | leftParen => "LeftParen"
  | rightParen => "RightParen"
  | leftBrace => "LeftBrace"
  | rightBrace => "RightBrace"
  | dot => "Dot"
  | arrow => "Arrow"
  | increment => "Increment"
  | decrement => "Decrement"
  | ampersand => "Ampersand"
  | asterisk => "Asterisk"
  | plus => "Plus"
  | minus => "Minus"
  | tilde => "Tilde"
  | exclamation => "Exclamation"
  | slash => "Slash"
  | percent => "Percent"
  | leftShift => "LeftShift"
  | rightShift => "RightShift"
  | less => "Less"
  | greater => "Greater"
  | lessEqual => "LessEqual"
  | greaterEqual => "GreaterEqual"
  | equalEqual => "EqualEqual"
  | notEqual => "NotEqual"
  | caret => "Caret"
  | pipe => "Pipe"
  | andAnd => "AndAnd"
  | orOr => "OrOr"
  | question => "Question"
  | colon => "Colon"
  | semicolon => "Semicolon"
  | ellipsis => "Ellipsis"
  | equal => "Equal"
  | starEqual => "StarEqual"
  | slashEqual => "SlashEqual"
  | percentEqual => "PercentEqual"
  | plusEqual => "PlusEqual"
  | minusEqual => "MinusEqual"
  | leftShiftEqual => "LeftShiftEqual"
  | rightShiftEqual => "RightShiftEqual"
  | andEqual => "AndEqual"
  | caretEqual => "CaretEqual"
  | pipeEqual => "PipeEqual"
  | comma => "Comma"
  | hash => "Hash"
  | hashHash => "HashHash"

def terminal : Punctuator → String
  | leftBracket => "leftBrack"
  | rightBracket => "rightBrack"
  | leftParen => "leftParen"
  | rightParen => "rightParen"
  | leftBrace => "leftBrace"
  | rightBrace => "rightBrace"
  | dot => "dot"
  | arrow => "arrow"
  | increment => "increment"
  | decrement => "decrement"
  | ampersand => "ampersand"
  | asterisk => "asterisk"
  | plus => "plus"
  | minus => "minus"
  | tilde => "tilde"
  | exclamation => "exclamation"
  | slash => "slash"
  | percent => "percent"
  | leftShift => "leftShift"
  | rightShift => "rightShift"
  | less => "lessThan"
  | greater => "greaterThan"
  | lessEqual => "lessEqual"
  | greaterEqual => "greaterEqual"
  | equalEqual => "equalEqual"
  | notEqual => "notEqual"
  | caret => "caret"
  | pipe => "pipe"
  | andAnd => "andAnd"
  | orOr => "orOr"
  | question => "question"
  | colon => "colon"
  | semicolon => "semicolon"
  | ellipsis => "ellipsis"
  | equal => "equals"
  | starEqual => "mulAssign"
  | slashEqual => "divAssign"
  | percentEqual => "modAssign"
  | plusEqual => "addAssign"
  | minusEqual => "subAssign"
  | leftShiftEqual => "leftShiftAssign"
  | rightShiftEqual => "rightShiftAssign"
  | andEqual => "andAssign"
  | caretEqual => "xorAssign"
  | pipeEqual => "orAssign"
  | comma => "comma"
  | hash => "hash"
  | hashHash => "hashHash"

def all : List Punctuator := [
  .leftBracket, .rightBracket, .leftParen, .rightParen, .leftBrace, .rightBrace, .dot, .arrow,
  .increment, .decrement, .ampersand, .asterisk, .plus, .minus, .tilde, .exclamation, .slash,
  .percent, .leftShift, .rightShift, .less, .greater, .lessEqual, .greaterEqual, .equalEqual,
  .notEqual, .caret, .pipe, .andAnd, .orOr, .question, .colon, .semicolon, .ellipsis, .equal,
  .starEqual, .slashEqual, .percentEqual, .plusEqual, .minusEqual, .leftShiftEqual,
  .rightShiftEqual, .andEqual, .caretEqual, .pipeEqual, .comma, .hash, .hashHash]

end Punctuator

inductive TokenKind where
  | endMark
  | identifier
  | integer
  | floating
  | character
  | string
  | keyword (k : Keyword)
  | punctuator (p : Punctuator)
deriving DecidableEq, Inhabited

namespace TokenKind

def name : TokenKind → String
  | endMark => "End"
  | identifier => "Identifier"
  | integer => "IntegerConstant"
  | floating => "FloatingConstant"
  | character => "CharacterConstant"
  | string => "StringLiteral"
  | keyword k => k.name
  | punctuator p => p.name

def terminal : TokenKind → String
  | endMark => "end"
  | identifier => "identifier"
  | integer => "integerConstant"
  | floating => "floatingConstant"
  | character => "characterConstant"
  | string => "stringLiteral"
  | keyword k => k.spelling
  | punctuator p => p.terminal

def all : List TokenKind :=
  [endMark, identifier, integer, floating, character, string]
    ++ Keyword.all.map keyword ++ Punctuator.all.map punctuator

def rank : TokenKind → Nat
  | endMark => 0
  | identifier => 1
  | integer => 2
  | floating => 3
  | character => 4
  | string => 5
  | keyword k => 6 + k.ctorIdx
  | punctuator p => 41 + p.ctorIdx

def ofRank? (n : Nat) : Option TokenKind := all[n]?

def isKeyword : TokenKind → Bool
  | keyword _ => true
  | _ => false

def isPunctuator : TokenKind → Bool
  | punctuator _ => true
  | _ => false

end TokenKind

inductive IntegerType where
  | i32 | u32 | i64 | u64
deriving DecidableEq

namespace IntegerType

def max : IntegerType → Nat
  | i32 => 2147483647
  | u32 => 4294967295
  | i64 => 9223372036854775807
  | u64 => 18446744073709551615

end IntegerType

inductive FloatingType where
  | f32 | f64
deriving DecidableEq

inductive Value where
  | int (value : Nat) (type : IntegerType)
  | float (value : Binary64) (type : FloatingType)
  | char (byte : UInt8)
  | bytes (bytes : List UInt8)
deriving DecidableEq

structure Token where
  kind : TokenKind
  text : String
  span : Span
  value : Option Value := none
deriving DecidableEq

namespace Token

def endAt (p : Position) : Token := { kind := .endMark, text := "", span := .point p }

def shown (t : Token) : String :=
  if t.kind = .endMark then "end of input" else s!"`{t.text}`"

end Token

end Ramify.C
