import Credence.Operator

namespace Credence.Token

inductive Kind where
  | eof | newline | indent | dedent
  | number | string | bytes | formatString | identifier
  | openBracket | closeBracket | openCurly | closeCurly | openParen | closeParen
  | assignment | walrus | equals | notEquals | less | lessEquals | greater | greaterEquals
  | dot | ellipsis | semicolon | colon | comma | arrow | atSign
  | plus | dash | star | doubleStar | slash | doubleSlash | percent | pipe | ampersand | caret
  | tilde | shiftLeft | shiftRight
  | augmented (op : BinaryOp)
  | kwFalse | kwNone | kwTrue | kwAnd | kwAs | kwAssert | kwAsync | kwAwait | kwBreak | kwClass
  | kwContinue | kwDef | kwDel | kwElif | kwElse | kwExcept | kwFinally | kwFor | kwFrom | kwGlobal
  | kwIf | kwImport | kwIn | kwIs | kwLambda | kwNonlocal | kwNot | kwOr | kwPass | kwRaise
  | kwReturn | kwTry | kwWhile | kwWith | kwYield
deriving DecidableEq, Inhabited

namespace Kind

def augmentedName : BinaryOp → String
  | .add => "PlusEquals"
  | .sub => "MinusEquals"
  | .mult => "StarEquals"
  | .matMult => "AtEquals"
  | .div => "SlashEquals"
  | .floorDiv => "DoubleSlashEquals"
  | .mod => "PercentEquals"
  | .pow => "DoubleStarEquals"
  | .shiftLeft => "ShiftLeftEquals"
  | .shiftRight => "ShiftRightEquals"
  | .bitOr => "PipeEquals"
  | .bitXor => "CaretEquals"
  | .bitAnd => "AmpersandEquals"

def name : Kind → String
  | eof => "EOF" | newline => "Newline" | indent => "Indent" | dedent => "Dedent"
  | number => "Number" | string => "String" | bytes => "Bytes" | formatString => "FString"
  | identifier => "Identifier"
  | openBracket => "OpenBracket" | closeBracket => "CloseBracket"
  | openCurly => "OpenCurly" | closeCurly => "CloseCurly"
  | openParen => "OpenParen" | closeParen => "CloseParen"
  | assignment => "Assignment" | walrus => "Walrus" | equals => "Equals"
  | notEquals => "NotEquals" | less => "Less" | lessEquals => "LessEquals"
  | greater => "Greater" | greaterEquals => "GreaterEquals"
  | dot => "Dot" | ellipsis => "Ellipsis" | semicolon => "Semicolon" | colon => "Colon"
  | comma => "Comma" | arrow => "Arrow" | atSign => "At"
  | plus => "Plus" | dash => "Dash" | star => "Star" | doubleStar => "DoubleStar"
  | slash => "Slash" | doubleSlash => "DoubleSlash" | percent => "Percent" | pipe => "Pipe"
  | ampersand => "Ampersand" | caret => "Caret" | tilde => "Tilde"
  | shiftLeft => "ShiftLeft" | shiftRight => "ShiftRight"
  | augmented op => augmentedName op
  | kwFalse => "False" | kwNone => "None" | kwTrue => "True" | kwAnd => "And" | kwAs => "As"
  | kwAssert => "Assert" | kwAsync => "Async" | kwAwait => "Await" | kwBreak => "Break"
  | kwClass => "Class" | kwContinue => "Continue" | kwDef => "Def" | kwDel => "Del"
  | kwElif => "Elif" | kwElse => "Else" | kwExcept => "Except" | kwFinally => "Finally"
  | kwFor => "For" | kwFrom => "From" | kwGlobal => "Global" | kwIf => "If"
  | kwImport => "Import" | kwIn => "In" | kwIs => "Is" | kwLambda => "Lambda"
  | kwNonlocal => "Nonlocal" | kwNot => "Not" | kwOr => "Or" | kwPass => "Pass"
  | kwRaise => "Raise" | kwReturn => "Return" | kwTry => "Try" | kwWhile => "While"
  | kwWith => "With" | kwYield => "Yield"

def ofWord : String → Kind
  | "False" => kwFalse | "None" => kwNone | "True" => kwTrue | "and" => kwAnd | "as" => kwAs
  | "assert" => kwAssert | "async" => kwAsync | "await" => kwAwait | "break" => kwBreak
  | "class" => kwClass | "continue" => kwContinue | "def" => kwDef | "del" => kwDel
  | "elif" => kwElif | "else" => kwElse | "except" => kwExcept | "finally" => kwFinally
  | "for" => kwFor | "from" => kwFrom | "global" => kwGlobal | "if" => kwIf
  | "import" => kwImport | "in" => kwIn | "is" => kwIs | "lambda" => kwLambda
  | "nonlocal" => kwNonlocal | "not" => kwNot | "or" => kwOr | "pass" => kwPass
  | "raise" => kwRaise | "return" => kwReturn | "try" => kwTry | "while" => kwWhile
  | "with" => kwWith | "yield" => kwYield
  | _ => identifier

/-- Operators and brackets by spelling; a spelling stands before the shorter ones it begins with. -/
def marks : List (List Char × Kind) :=
  [(['*', '*', '='], augmented .pow), (['/', '/', '='], augmented .floorDiv),
    (['>', '>', '='], augmented .shiftRight), (['<', '<', '='], augmented .shiftLeft),
    (['.', '.', '.'], ellipsis), (['-', '>'], arrow), ([':', '='], walrus),
    (['*', '*'], doubleStar), (['/', '/'], doubleSlash), (['<', '<'], shiftLeft),
    (['>', '>'], shiftRight), (['<', '='], lessEquals), (['>', '='], greaterEquals),
    (['=', '='], equals), (['!', '='], notEquals), (['+', '='], augmented .add),
    (['-', '='], augmented .sub), (['*', '='], augmented .mult), (['/', '='], augmented .div),
    (['%', '='], augmented .mod), (['|', '='], augmented .bitOr),
    (['&', '='], augmented .bitAnd), (['^', '='], augmented .bitXor),
    (['@', '='], augmented .matMult), (['['], openBracket), ([']'], closeBracket),
    (['\x7b'], openCurly), (['\x7d'], closeCurly), (['('], openParen), ([')'], closeParen),
    (['='], assignment), (['<'], less), (['>'], greater), (['.'], dot), ([';'], semicolon),
    ([':'], colon), ([','], comma), (['@'], atSign), (['+'], plus), (['-'], dash), (['*'], star),
    (['/'], slash), (['%'], percent), (['|'], pipe), (['&'], ampersand), (['^'], caret),
    (['~'], tilde)]

def opens : Kind → Bool
  | openBracket | openCurly | openParen => true
  | _ => false

def closes : Kind → Bool
  | closeBracket | closeCurly | closeParen => true
  | _ => false

/-- Kinds after which no further element of an expression list can follow a comma. -/
def endsExpression : Kind → Bool
  | newline | eof | semicolon | colon | assignment | closeParen | closeBracket | closeCurly
  | dedent | kwIn | kwFor | kwIf | kwElse | kwAsync => true
  | augmented _ => true
  | _ => false

end Kind

end Credence.Token
