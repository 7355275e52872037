import CallBinding.KeyedList
import CallBinding.Text.Blank

/-!
Files of variables. A line binds a key to a value, and a key without an equals sign is bound to
nothing. A value is quoted, and then may span lines and hold escapes, or reaches to the end of its
line or to a comment. A dollar sign before a braced name stands for the value of a variable, and a
line that fits none of this is passed over.
-/

set_option autoImplicit false
set_option relaxedAutoImplicit false

namespace CallBinding.EnvFile

open Text

/-- A binding of a key, to a value or to nothing. -/
abbrev Binding := String × Option String

/-- Line breaks of every kind as line feeds. -/
def foldBreaks : List Char → List Char
  | [] => []
  | '\r' :: '\n' :: rest => '\n' :: foldBreaks rest
  | '\r' :: rest => '\n' :: foldBreaks rest
  | c :: rest => c :: foldBreaks rest

/-- The rest of a text after the line that it begins with. -/
def afterLine (text : List Char) : List Char :=
  (text.dropWhile (· ≠ '\n')).drop 1

/-- The text of a value up to its quote, which a backslash keeps from ending it, and the rest after
the quote. -/
def takeQuoted (quote : Char) : List Char → Option (List Char × List Char)
  | [] => none
  | '\\' :: c :: rest =>
    if c = quote then
      match takeQuoted quote rest with
      | some (value, after) => some ('\\' :: c :: value, after)
      | none => some (['\\'], rest)
    else (takeQuoted quote (c :: rest)).map fun (value, after) ↦ ('\\' :: value, after)
  | c :: rest =>
    if c = quote then some ([], rest)
    else (takeQuoted quote rest).map fun (value, after) ↦ (c :: value, after)

/-- The control that a letter stands for after a backslash. -/
def controlOf? : Char → Option Char
  | 'a' => some '\x07'
  | 'b' => some '\x08'
  | 'f' => some '\x0c'
  | 'n' => some '\n'
  | 'r' => some '\r'
  | 't' => some '\t'
  | 'v' => some '\x0b'
  | _ => none

/-- The value of a quoted text: a backslash stands for the sign after it, or between double quotes
for a control, when it has such a meaning. -/
def unescape (quote : Char) : List Char → List Char
  | '\\' :: c :: rest =>
    if c = '\\' ∨ c = '\'' ∨ (c = '"' ∧ quote = '"') then c :: unescape quote rest
    else match (if quote = '"' then controlOf? c else none) with
      | some control => control :: unescape quote rest
      | none => '\\' :: unescape quote (c :: rest)
  | c :: rest => c :: unescape quote rest
  | [] => []

/-- A line without the comment that blanks set apart from its value. -/
def dropComment : List Char → List Char
  | [] => []
  | c :: rest =>
    if isBlank c && (rest.dropWhile isBlank).head? = some '#' then [] else c :: dropComment rest

/-- A value and the rest after it. A quote that is not closed is no value. -/
def takeValue (text : List Char) : Option (List Char × List Char) :=
  match text with
  | [] => some ([], [])
  | c :: rest =>
    if c = '\'' ∨ c = '"' then
      (takeQuoted c rest).map fun (value, after) ↦ (unescape c value, after)
    else
      let line := text.takeWhile (· ≠ '\n')
      some (trimRight (dropComment line), text.dropWhile (· ≠ '\n'))

/-- The rest after blanks, a comment and the end of the line, when nothing else stands there. -/
def afterBinding? (text : List Char) : Option (List Char) :=
  let text := text.dropWhile isInlineBlank
  let text := if text.head? = some '#' then text.dropWhile (· ≠ '\n') else text
  match text with
  | [] => some []
  | c :: rest => if c = '\n' then some rest else none

/-- The rest after the word that may stand before a key. -/
def dropExport (text : List Char) : List Char :=
  let word := "export".toList
  let rest := text.drop word.length
  if word.isPrefixOf text && rest.head?.any isInlineBlank then rest.dropWhile isInlineBlank
  else text

/-- A key and the rest after it. A comment has no key. -/
def takeKey (text : List Char) : Option (Option (List Char) × List Char) :=
  match text with
  | [] => none
  | c :: rest =>
    if c = '#' then some (none, text)
    else if c = '\'' then
      let key := rest.takeWhile (· ≠ '\'')
      match rest.dropWhile (· ≠ '\'') with
      | _ :: after => if key = [] then none else some (some key, after)
      | [] => none
    else
      let fits (d : Char) : Bool := d ≠ '=' && d ≠ '#' && !isBlank d
      if fits c then some (some (text.takeWhile fits), text.dropWhile fits) else none

/-- The value of a binding and the rest after it. -/
def takeBound (text : List Char) : Option (Option (List Char) × List Char) :=
  match text with
  | '=' :: rest =>
    (takeValue (rest.dropWhile isInlineBlank)).map fun (value, after) ↦ (some value, after)
  | _ => some (none, text)

/-- The binding that a text begins with, if it is well formed, and the text from which to go on. A
malformed binding ends with its line. -/
def takeBinding (text : List Char) : Option Binding × List Char :=
  let text := dropExport text
  match takeKey text with
  | none => (none, afterLine text)
  | some (key, afterKey) =>
    let afterKey := afterKey.dropWhile isInlineBlank
    match takeBound afterKey with
    | none => (none, afterLine (afterKey.drop 1))
    | some (value, after) =>
      match afterBinding? after with
      | none => (none, afterLine after)
      | some rest =>
        (key.map fun k ↦ (String.ofList k, value.map String.ofList), rest)

/-- The well formed bindings of a text, of which at most `limit` are read. -/
def takeBindings : Nat → List Char → List Binding
  | 0, _ => []
  | limit + 1, text =>
    match text.dropWhile isBlank with
    | [] => []
    | c :: rest =>
      let (binding, after) := takeBinding (c :: rest)
      binding.toList ++ takeBindings limit after

/-- The bindings of a file in the order in which they stand. -/
def bindings (content : String) : List Binding :=
  let text := foldBreaks content.toList
  takeBindings (text.length + 1) text

/-- The name and the fallback of a reference whose dollar sign and brace are read already, and the
rest after its closing brace. -/
def takeReference (text : List Char) : Option (List Char × List Char × List Char) :=
  let close : Char := Char.ofNat 0x7d
  let name := text.takeWhile fun c ↦ c ≠ close && c ≠ ':'
  match text.dropWhile fun c ↦ c ≠ close && c ≠ ':' with
  | [] => none
  | c :: rest =>
    if c = close then some (name, [], rest)
    else match rest with
      | '-' :: more =>
        match more.dropWhile (· ≠ close) with
        | [] => none
        | _ :: after => some (name, more.takeWhile (· ≠ close), after)
      | _ => none

/-- A value with the references in it replaced, of which at most `limit` are read. -/
def expand (lookup : String → Option String) : Nat → List Char → List Char
  | 0, text => text
  | _, [] => []
  | limit + 1, c :: rest =>
    if c = '$' ∧ rest.head? = some (Char.ofNat 0x7b) then
      match takeReference (rest.drop 1) with
      | some (name, fallback, after) =>
        ((lookup (String.ofList name)).map String.toList).getD fallback
          ++ expand lookup limit after
      | none => c :: expand lookup limit rest
    else c :: expand lookup limit rest

/-- The variables of a file. A reference means the variable bound before it in the file, or else the
variable of the environment. -/
def read (environment : List (String × String)) (content : String) : List Binding :=
  (bindings content).foldl (fun known binding ↦
    let lookup (name : String) : Option String :=
      match KeyedList.get? name known with
      | some value => some (value.getD "")
      | none => KeyedList.get? name environment
    let value := binding.2.map fun v ↦
      String.ofList (expand lookup (v.length + 1) v.toList)
    KeyedList.put binding.1 value known) []

end CallBinding.EnvFile
