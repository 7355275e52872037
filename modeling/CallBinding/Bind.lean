import CallBinding.Params
import CallBinding.Argument
import CallBinding.Outcome

/-!
Binding a call to a method. Arguments fill the normal slots from the front; when keywords are
declared, the last argument may be set aside as their hash; the post-rest slots are filled from the
back, and what is left in between goes to the splat or to the optional slots.

A definition whose keywords all have defaults is tried twice: first with every argument
positional, then with the last one as the hash. The failure of the second attempt is reported.

Binding asks an argument for its text or its labels only when it has to, which makes a difference
where reading them may fail (`MethodDef.bindAsked`).
-/

set_option autoImplicit false
set_option relaxedAutoImplicit false

namespace CallBinding

namespace Params

/-- Binds the arguments that the normal slots and the keyword hash have left over. -/
def bindTail {α : Type} (p : Params) (args : List α) : Outcome :=
  let between := args.length - p.postRest.length
  if args.length < p.postRest.length then
    .miscounted .insufficientPostRest args.length p.postRest.length
  else if p.rest.isSome || between ≤ p.optional.length then .ok
  else .miscounted .tooManyArguments between p.optional.length

/-- The names that a hash passes: each of its labels without the colon. -/
def receivedNames (arg : ArgumentFacts) : List String :=
  arg.labels.map withoutTrailingColon

/-- The required keywords that a hash does not name, in the order of their declaration. -/
def missingKeywords (p : Params) (arg : ArgumentFacts) : List String :=
  p.requiredKeywordNames.filter fun name ↦ !(receivedNames arg).contains name

/-- The names in a hash that are not declared, in the order of the call. -/
def unexpectedKeywords (p : Params) (arg : ArgumentFacts) : List String :=
  (receivedNames arg).filter fun name ↦ !p.keywordNames.contains name

/-- Whether the last argument of a call can be its keyword hash. What is not a literal may be a
hash when the call is made, and a hash that splats another value may name any keyword. -/
def checkKeywordHash (p : Params) : Option ArgumentFacts → Outcome
  | none => .failed .keywordsRequired
  | some arg =>
    if !arg.isHash then
      if arg.isLiteral then .notHash arg.source else .ok
    else if !arg.hasSplat && p.missingKeywords arg ≠ [] then
      .misnamed .keywordsMissing (p.missingKeywords arg)
    else if p.keywordRest.isNone && p.unexpectedKeywords arg ≠ [] then
      .misnamed .keywordsUnexpected (p.unexpectedKeywords arg)
    else .ok

/-- Binds with the last argument set aside as the keyword hash. -/
def bindWithHash (p : Params) (args : List ArgumentFacts) : Outcome :=
  let hash := p.checkKeywordHash args.getLast?
  if hash.bindable then p.bindTail args.dropLast else hash

/-- Binds the arguments that the normal slots have left over. -/
def bindRemaining (p : Params) (args : List ArgumentFacts) : Outcome :=
  if p.requiresKeywords then p.bindWithHash args
  else if p.takesKeywords && !(p.bindTail args).bindable then p.bindWithHash args
  else p.bindTail args

end Params

namespace MethodDef

/-- Decides whether a call by a name and with arguments binds to the method. -/
def bind (d : MethodDef) (name : String) (args : List ArgumentFacts) : Outcome :=
  let p := d.params
  if name ≠ d.name then .failed .nameMismatch
  else if args.length < p.normal.length then
    .miscounted .insufficientPositional args.length p.normal.length
  else p.bindRemaining (args.drop p.normal.length)

end MethodDef

/-! ### Arguments that are asked -/

section Asked

variable {m : Type → Type} [Monad m]

namespace Params

/-- Whether the last argument of a call can be its keyword hash. The text is asked of a literal that
is no hash, the labels are asked of a hash, and any other argument is asked nothing. -/
def checkAskedHash (p : Params) : Option (AskedArgument m) → m Outcome
  | none => return p.checkKeywordHash none
  | some arg =>
    if !arg.isHash then
      if arg.isLiteral then return .notHash (← arg.source) else return .ok
    else do
      let labels ← arg.labels
      return p.checkKeywordHash (some ⟨"", arg.isHash, arg.isLiteral, labels, arg.hasSplat⟩)

/-- Binds with the last argument set aside as the keyword hash. -/
def bindWithAskedHash (p : Params) (args : List (AskedArgument m)) : m Outcome := do
  let hash ← p.checkAskedHash args.getLast?
  if hash.bindable then return p.bindTail args.dropLast else return hash

/-- Binds the arguments that the normal slots have left over. -/
def bindRemainingAsked (p : Params) (args : List (AskedArgument m)) : m Outcome :=
  if p.requiresKeywords then p.bindWithAskedHash args
  else if p.takesKeywords && !(p.bindTail args).bindable then p.bindWithAskedHash args
  else return p.bindTail args

end Params

/-- Decides whether a call by a name and with arguments binds to the method, and asks the arguments
for what it needs. -/
def MethodDef.bindAsked (d : MethodDef) (name : String) (args : List (AskedArgument m)) :
    m Outcome :=
  let p := d.params
  if name ≠ d.name then return .failed .nameMismatch
  else if args.length < p.normal.length then
    return .miscounted .insufficientPositional args.length p.normal.length
  else p.bindRemainingAsked (args.drop p.normal.length)

end Asked

end CallBinding
