import CallBinding.Grammar.Cursor

/-!
The words and signs of Ruby, and what can be told of a text from its next few characters: whether a
word is a label, whether a method name without parentheses is followed by arguments, and which
operator comes next.
-/

set_option autoImplicit false
set_option relaxedAutoImplicit false

namespace CallBinding.Grammar

/-- The word that a text begins with. -/
def wordOf (text : List Char) : List Char :=
  if text.head?.any isWordStart then text.takeWhile isWordChar else []

/-- Whether an equals sign that ends a name is followed by a sign that it belongs to. -/
def continuesEquals (text : List Char) : Bool :=
  text.head?.any fun c ↦ c = '=' || c = '~' || c = '>'

/-- The word that a text begins with, together with the question or exclamation mark that ends the
name of a method. -/
def methodWordOf (text : List Char) : List Char :=
  let word := wordOf text
  match text.drop word.length with
  | mark :: after =>
    if word ≠ [] && (mark = '?' || mark = '!')
        && (after.head? ≠ some '=' || continuesEquals (after.drop 1)) then word ++ [mark]
    else word
  | [] => word

/-- Words that cannot begin an expression. -/
def closingWords : List String :=
  ["end", "else", "elsif", "when", "in", "rescue", "ensure", "then", "do", "and", "or"]

/-- Words that follow a statement and change when it is run. -/
def modifierWords : List String :=
  ["if", "unless", "while", "until", "rescue"]

/-- The name of a keyword argument that a text begins with, when a single colon follows it. -/
def labelOf (text : List Char) : List Char :=
  let word := wordOf text
  let name := match text.drop word.length with
    | mark :: ':' :: _ => if mark = '?' || mark = '!' then word ++ [mark] else word
    | _ => word
  match text.drop name.length with
  | ':' :: after => if name ≠ [] && after.head? ≠ some ':' then name else []
  | _ => []

/-- The blanks that a text begins with, line breaks that are escaped among them. -/
def leadingSpace (text : List Char) : Nat :=
  match text with
  | '\\' :: '\n' :: rest => leadingSpace rest + 2
  | c :: rest => if isSpace c then leadingSpace rest + 1 else 0
  | [] => 0

/-- Whether a text goes on with something other than a blank. -/
def goesOn (text : List Char) : Bool :=
  text.head?.any fun c ↦ !isSpace c && c ≠ '\n'

/-- Whether the text after two angle brackets opens a heredoc. -/
def opensHeredoc (text : List Char) : Bool :=
  let (signed, text) := match text with
    | '~' :: rest => (true, rest)
    | '-' :: rest => (true, rest)
    | _ => (false, text)
  text.head?.any fun c ↦
    c = '"' || c = '\'' || c = '\x60' || (if signed then isWordStart c else c.isUpper)

/-- Whether a text is a question mark that stands for the character after it. -/
def isCharLiteral (text : List Char) : Bool :=
  match text with
  | '?' :: '\\' :: _ => true
  | '?' :: c :: rest =>
    goesOn [c] && (0x80 ≤ c.toNat || !(isWordChar c && rest.head?.any isWordChar))
  | _ => false

/-- Whether a percent sign opens a literal. -/
def opensPercent (text : List Char) : Bool :=
  match text with
  | c :: d :: _ =>
    if c.isAlpha then "wWiIqQrxs".toList.contains c && !isWordChar d && !isSpace d && d ≠ '\n'
    else !isWordChar c && c ≠ '=' && goesOn text
  | _ => false

/-- Whether a text begins an argument of a method whose name stands right before it, without a
parenthesis that opens an argument list. Where a sign can also stand between two operands, it begins
an argument when a blank stands before it and none after it. -/
def beginsArgument (text : List Char) : Bool :=
  let blank := leadingSpace text
  let spaced := 0 < blank
  let text := text.drop blank
  let word := String.ofList (wordOf text)
  match text with
  | [] => false
  | '"' :: _ | '\'' :: _ | '\x60' :: _ => true
  | '(' :: _ | '[' :: _ => spaced
  | '@' :: _ | '$' :: _ => spaced
  | ':' :: ':' :: c :: _ => spaced && c.isUpper
  | ':' :: rest => spaced && goesOn rest && rest.head? ≠ some ':'
  | '-' :: '>' :: _ => spaced
  | '-' :: rest => spaced && goesOn rest && rest.head? ≠ some '='
  | '*' :: '*' :: rest => spaced && goesOn rest && rest.head? ≠ some '='
  | '*' :: rest => spaced && goesOn rest && rest.head? ≠ some '='
  | '&' :: rest =>
    spaced && goesOn rest && !rest.head?.any fun c ↦ c = '&' || c = '=' || c = '.'
  | '!' :: rest => spaced && !rest.head?.any fun c ↦ c = '=' || c = '~'
  | '~' :: _ => spaced
  | '/' :: rest => spaced && goesOn rest && rest.head? ≠ some '='
  | '%' :: rest => spaced && opensPercent rest
  | '?' :: _ => spaced && isCharLiteral text
  | '<' :: '<' :: rest => spaced && opensHeredoc rest
  | c :: _ =>
    if labelOf text ≠ [] then true
    else if isWordStart c then !closingWords.contains word && !modifierWords.contains word
    else spaced && c.isDigit

/-- An operator between two operands: its sign, how strongly it binds, and the least strength that
an operator in its right operand needs. -/
structure Operator where
  sign : String
  power : Nat
  right : Nat
  kind : String := "binary"

def powerOfRange : Nat := 25

def powerOfConditional : Nat := 20

/-- How strongly the word that negates binds. -/
def powerOfNot : Nat := 5

/-- How strongly the word that asks for a definition binds. -/
def powerOfDefined : Nat := 10

/-- How strongly a prefixed minus binds. -/
def powerOfMinus : Nat := 75

/-- How strongly the other prefixed signs bind. -/
def powerOfSign : Nat := 85

/-- The operators, a sign before every sign that it begins with. -/
def operators : List Operator :=
  let left (power : Nat) (sign : String) : Operator := ⟨sign, power, power + 1, "binary"⟩
  let right (power : Nat) (sign : String) : Operator := ⟨sign, power, power, "binary"⟩
  [right 80 "**"] ++ ["<=>", "===", "==", "!=", "=~", "!~"].map (right 40)
    ++ ["<<", ">>"].map (left 60) ++ ["<=", ">=", "<", ">"].map (left 45)
    ++ [left 30 "||", left 35 "&&", left 50 "|", left 50 "^", left 55 "&"]
    ++ ["+", "-"].map (left 65) ++ ["*", "/", "%"].map (left 70)
    ++ ["...", ".."].map fun sign ↦ ⟨sign, powerOfRange, powerOfRange + 1, "range"⟩

/-- The operators that combine with an assignment. -/
def assigningOperators : List String :=
  ["**", "<<", ">>", "||", "&&", "+", "-", "*", "/", "%", "|", "&", "^"]

/-- The operator of an assignment that a text begins with, when it has one. -/
def assigningOperator? (text : List Char) : Option String :=
  assigningOperators.find? fun sign ↦ (sign ++ "=").toList.isPrefixOf text

/-- Whether a text begins with the sign of a plain assignment. -/
def assigns (text : List Char) : Bool :=
  text.head? = some '=' && !continuesEquals (text.drop 1)

/-- The operator that a text begins with. -/
def operator? (text : List Char) : Option Operator :=
  if (assigningOperator? text).isSome || "&.".toList.isPrefixOf text
      || "=>".toList.isPrefixOf text then none
  else operators.find? fun o ↦ o.sign.toList.isPrefixOf text

/-- The names of methods that are operators, a name before every name that it begins with. -/
def operatorNames : List String :=
  ["[]=", "[]", "<=>", "===", "==", "=~", "**", "+@", "-@", "~@", "!@", "<<", ">>", "<=", ">=",
    "!=", "!~", "+", "-", "*", "/", "%", "&", "|", "^", "~", "<", ">", "!", "\x60"]

/-- The operator that a text begins with as the name of a method. -/
def operatorName? (text : List Char) : Option String :=
  operatorNames.find? fun name ↦ name.toList.isPrefixOf text

/-- The kind of the name that a word is. -/
def nameKind (word : List Char) : String :=
  if word.head?.any Char.isUpper then "constant" else "identifier"

end CallBinding.Grammar
