import CallBinding.Grammar.Control

/-!
Declarations: methods, classes and modules. The name of a method can be any word, a word that sets,
or an operator. A method whose parameters stand without parentheses needs a break before its body; a
method whose body is one operand has an equals sign in its place, and no end.
-/

set_option autoImplicit false
set_option relaxedAutoImplicit false

namespace CallBinding.Grammar

/-! ### Methods -/

/-- The name of a method that is being defined. -/
def methodName : Reader Node := do
  let text ← rest
  let word := methodWordOf text
  let after := text.drop word.length
  if word = [] then
    match operatorName? text with
    | some operator => leaf "operator" operator.length
    | none => failure
  else if !isMarked word && assigns after then leaf "setter" (word.length + 1)
  else leaf (nameKind word) word.length

/-- Whether a text begins with the point or the colons between an object and its method. -/
def beginsLink (text : List Char) : Bool :=
  text.head? = some '.' || "::".toList.isPrefixOf text

/-- Reads the point or the colons between an object and its method. -/
def expectLink : Reader Unit := do
  if ← accept "::" then return () else expect "."

/-- The object whose method is being defined, when one is named. -/
def methodObject (p : Phrases) : Reader (Option Node) := do
  let text ← rest
  let word := wordOf text
  if word ≠ [] && beginsLink (text.drop word.length) then
    let kind := if String.ofList word = "self" then "self" else nameKind word
    let object ← leaf kind word.length
    expectLink
    return some object
  match text with
  | '(' :: _ =>
    skip 1
    skipBlanks
    let object ← p.operand .plain 0
    skipBlanks
    expect ")"
    expectLink
    return some object
  | '@' :: _ | '$' :: _ =>
    let object ← sigilVariable
    expectLink
    return some object
  | _ => return none

/-- A method definition. -/
def methodPhrase (p : Phrases) : Reader Node := do
  let start ← get
  expectWord "def"
  within true false do
    skipBlanks
    let object ← methodObject p
    let name ← methodName
    let bracketed := (← rest).dropWhile isSpace |>.head? |>.any (· = '(')
    let parameters ← methodParameters p
    let kind := if object.isSome then "singleton_method" else "method"
    let header := (object.map (Node.as · "object")).toList ++ [name.as "name"]
      ++ (parameters.map (Node.as · "parameters")).toList
    let after ← get
    skipBlanks
    if assigns (← rest) && (bracketed || parameters.isNone) then
      skip 1
      skipLines
      let body ← p.operand .plain 0
      nodeFrom start kind (header ++ [body.as "body"])
    else
      set after
      let broken ← acceptBreak
      if !broken && !bracketed then failure
      let body ← bodyOf "body_statement" (guardedStatements p)
      expectEnd
      nodeFrom start kind (header ++ body)

/-! ### Classes and modules -/

/-- The name of a class or a module. -/
def constantPath (p : Phrases) : Reader Node := do
  let name ← p.target
  if name.kind = "constant" || name.kind = "scope_resolution" then return name else failure

/-- A class, or the statements on the methods of one object. -/
def classPhrase (p : Phrases) : Reader Node := do
  let start ← get
  expectWord "class"
  within true false do
    skipBlanks
    if ← accept "<<" then
      skipBlanks
      let value ← p.operand .argument 0
      let broken ← acceptBreak
      if !broken then failure
      let body ← bodyOf "body_statement" (guardedStatements p)
      expectEnd
      nodeFrom start "singleton_class" (value.as "value" :: body)
    else
      let name ← constantPath p
      skipBlanks
      let sign ← get
      let parents ←
        if ← accept "<" then
          skipBlanks
          let parent ← p.operand .argument 0
          pure [(← nodeFrom sign "superclass" [parent]).as "superclass"]
        else pure []
      let broken ← acceptBreak
      if !broken && !parents.isEmpty then failure
      let body ← bodyOf "body_statement" (guardedStatements p)
      expectEnd
      nodeFrom start "class" (name.as "name" :: (parents ++ body))

/-- A module. -/
def modulePhrase (p : Phrases) : Reader Node := do
  let start ← get
  expectWord "module"
  within true false do
    skipBlanks
    let name ← constantPath p
    let _ ← acceptBreak
    let body ← bodyOf "body_statement" (guardedStatements p)
    expectEnd
    nodeFrom start "module" (name.as "name" :: body)

end CallBinding.Grammar
