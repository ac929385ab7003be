import GraphqlArtifacts.Graphql.Document
import GraphqlArtifacts.Graphql.Lexer

-- Parsing of documents. A parser works on the tokens that are left; the fault that they end with is
-- raised when the last token before it is taken.

namespace GraphqlArtifacts

namespace Graphql

abbrev Parser (α : Type) := StateT Tokens (Except SyntaxError) α

namespace Parser

-- The end of the text, for a state that has no token left.
def endToken : Token :=
  ⟨.endOfFile, 0, ""⟩

def current : Parser Token := do
  return (← get).tokens.headD endToken

def raise (fault : SyntaxFault) (t : Token) : Parser α :=
  throw ⟨fault, t.start⟩

def unexpected (t : Token) : Parser α :=
  raise (.unexpected t.display) t

-- Takes the current token. The end of the text is never taken.
def advance : Parser Unit := do
  match ← get with
  | ⟨[_], some e⟩ => throw e
  | ⟨[], some e⟩ => throw e
  | ⟨_ :: t :: rest, fault⟩ => set (⟨t :: rest, fault⟩ : Tokens)
  | _ => return

-- The token after the current one.
def lookahead : Parser Token := do
  match ← get with
  | ⟨_ :: t :: _, _⟩ => return t
  | ⟨_, some e⟩ => throw e
  | ⟨[t], none⟩ => return t
  | _ => return endToken

def peek (kind : TokenKind) : Parser Bool := do
  return (← current).kind == kind

-- Takes a token of one kind.
def expect (kind : TokenKind) : Parser Token := do
  let t ← current
  if t.kind = kind then
    advance
    return t
  else
    raise (.expected kind.display t.display) t

-- Takes the current token if it is of one kind, and says whether it was.
def skip (kind : TokenKind) : Parser Bool := do
  if ← peek kind then
    advance
    return true
  else
    return false

def isKeyword (word : String) (t : Token) : Bool :=
  t.kind == .name && t.text == word

def expectKeyword (word : String) : Parser Unit := do
  let t ← current
  if isKeyword word t then advance else raise (.expected s!"'{word}'" t.display) t

def skipKeyword (word : String) : Parser Bool := do
  if isKeyword word (← current) then
    advance
    return true
  else
    return false

def name : Parser String := do
  return (← expect .name).text

-- How many tokens are left: no list has more items.
def remaining : Parser Nat := do
  return (← get).tokens.length

-- Items up to a closing token. The fuel bounds their number.
def itemsUntil (closing : TokenKind) (item : Parser α) : Nat → Parser (List α)
  | 0 => return []
  | fuel + 1 => do
    if ← skip closing then
      return []
    else
      let a ← item
      let rest ← itemsUntil closing item fuel
      return a :: rest

-- Any number of items between two tokens.
def any (opening : TokenKind) (item : Parser α) (closing : TokenKind) : Parser (List α) := do
  let _ ← expect opening
  itemsUntil closing item (← remaining)

-- Items between two tokens, at least one.
def many (opening : TokenKind) (item : Parser α) (closing : TokenKind) : Parser (List α) := do
  let _ ← expect opening
  let a ← item
  let rest ← itemsUntil closing item (← remaining)
  return a :: rest

-- Items between two tokens, at least one; none at all if the opening token is not there.
def optionalMany (opening : TokenKind) (item : Parser α) (closing : TokenKind) :
    Parser (List α) := do
  if ← peek opening then many opening item closing else return []

-- Further items, each after a separator.
def itemsAfter (separator : TokenKind) (item : Parser α) : Nat → Parser (List α)
  | 0 => return []
  | fuel + 1 => do
    if ← skip separator then
      let a ← item
      let rest ← itemsAfter separator item fuel
      return a :: rest
    else
      return []

-- Items with separators between them, and perhaps one before the first.
def delimited (separator : TokenKind) (item : Parser α) : Parser (List α) := do
  let _ ← skip separator
  let a ← item
  let rest ← itemsAfter separator item (← remaining)
  return a :: rest

-- Values and types

-- A variable where a constant is wanted.
def refuseVariable : Parser α := do
  let dollar ← expect .dollar
  let t ← current
  if t.kind = .name then
    raise (.variableInConstant t.text) dollar
  else
    unexpected dollar

def variableName : Parser String := do
  let _ ← expect .dollar
  name

def namedValue (word : String) : Value :=
  if word = "true" then .boolean true
  else if word = "false" then .boolean false
  else if word = "null" then .null
  else .enum word

-- A value, which holds no variables if it has to be constant. The fuel bounds its depth.
def value (constant : Bool) : Nat → Parser Value
  | 0 => do unexpected (← current)
  | fuel + 1 => do
    let t ← current
    let take (v : Value) : Parser Value := do
      advance
      return v
    match t.kind with
    | .bracketLeft => return .list (← any .bracketLeft (value constant fuel) .bracketRight)
    | .braceLeft =>
      let field : Parser (String × Value) := do
        let key ← name
        let _ ← expect .colon
        return (key, ← value constant fuel)
      return .object (← any .braceLeft field .braceRight)
    | .int => take (.int t.text)
    | .float => take (.float t.text)
    | .string => take (.string t.text false)
    | .blockString => take (.string t.text true)
    | .name => take (namedValue t.text)
    | .dollar => if constant then refuseVariable else return .variable (← variableName)
    | _ => unexpected t

def anyValue (constant : Bool) : Parser Value := do
  value constant ((← remaining) + 1)

-- A reference to a type. The fuel bounds its depth.
def typeRefWithin : Nat → Parser TypeRef
  | 0 => do unexpected (← current)
  | fuel + 1 => do
    let type ← do
      if ← skip .bracketLeft then
        let item ← typeRefWithin fuel
        let _ ← expect .bracketRight
        pure (TypeRef.list item)
      else
        pure (TypeRef.named (← name))
    if ← skip .bang then return .nonNull type else return type

def typeRef : Parser TypeRef := do
  typeRefWithin ((← remaining) + 1)

def argument (constant : Bool) : Parser Argument := do
  let key ← name
  let _ ← expect .colon
  return ⟨key, ← anyValue constant⟩

def arguments (constant : Bool) : Parser (List Argument) :=
  optionalMany .parenLeft (argument constant) .parenRight

def directive (constant : Bool) : Parser Directive := do
  let _ ← expect .at
  let key ← name
  return ⟨key, ← arguments constant⟩

def directivesUpTo (constant : Bool) : Nat → Parser (List Directive)
  | 0 => return []
  | fuel + 1 => do
    if ← peek .at then
      let d ← directive constant
      let rest ← directivesUpTo constant fuel
      return d :: rest
    else
      return []

def directives (constant : Bool) : Parser (List Directive) := do
  directivesUpTo constant (← remaining)

-- Operations and fragments

def operationKind : Parser OperationKind := do
  let t ← expect .name
  match OperationKind.all.find? (·.keyword == t.text) with
  | some kind => return kind
  | none => unexpected t

def variableDefinition : Parser VariableDefinition := do
  let key ← variableName
  let _ ← expect .colon
  let type ← typeRef
  let defaultValue ← do
    if ← skip .equals then pure (some (← anyValue true)) else pure none
  return ⟨key, type, defaultValue, ← directives true⟩

def fragmentName : Parser String := do
  let t ← current
  if t.text = "on" then unexpected t else name

-- A selection. The fuel bounds its depth.
def selection : Nat → Parser Selection
  | 0 => do unexpected (← current)
  | fuel + 1 => do
    let selectionSet := many .braceLeft (selection fuel) .braceRight
    if ← skip .spread then
      let hasCondition ← skipKeyword "on"
      if !hasCondition && (← peek .name) then
        let key ← fragmentName
        return .spread key (← directives false)
      else
        let condition ← if hasCondition then some <$> name else pure none
        let ds ← directives false
        return .inlineFragment condition ds (← selectionSet)
    else
      let first ← name
      let (renamed, key) ← do
        if ← skip .colon then pure (some first, ← name) else pure (none, first)
      let arguments ← arguments false
      let ds ← directives false
      let selections ← if ← peek .braceLeft then selectionSet else pure []
      return .field renamed key arguments ds selections

def selectionSet : Parser (List Selection) := do
  many .braceLeft (selection (← remaining)) .braceRight

def operation : Parser Definition := do
  if ← peek .braceLeft then
    return .operation ⟨.query, none, [], [], ← selectionSet⟩
  else
    let kind ← operationKind
    let key ← if ← peek .name then some <$> name else pure none
    let definitions ← optionalMany .parenLeft variableDefinition .parenRight
    let ds ← directives false
    return .operation ⟨kind, key, definitions, ds, ← selectionSet⟩

def fragment : Parser Definition := do
  expectKeyword "fragment"
  let key ← fragmentName
  expectKeyword "on"
  let condition ← name
  let ds ← directives false
  return .fragment ⟨key, condition, ds, ← selectionSet⟩

-- Definitions of a schema

def isString (t : Token) : Bool :=
  t.kind == .string || t.kind == .blockString

def description : Parser (Option Description) := do
  let t ← current
  if isString t then
    advance
    return some ⟨t.text, t.kind == .blockString⟩
  else
    return none

def inputDefinition : Parser InputDefinition := do
  let text ← description
  let key ← name
  let _ ← expect .colon
  let type ← typeRef
  let defaultValue ← do
    if ← skip .equals then pure (some (← anyValue true)) else pure none
  return ⟨text, key, type, defaultValue, ← directives true⟩

def argumentDefinitions : Parser (List InputDefinition) :=
  optionalMany .parenLeft inputDefinition .parenRight

def fieldDefinition : Parser FieldDefinition := do
  let text ← description
  let key ← name
  let arguments ← argumentDefinitions
  let _ ← expect .colon
  let type ← typeRef
  return ⟨text, key, arguments, type, ← directives true⟩

def fieldDefinitions : Parser (List FieldDefinition) :=
  optionalMany .braceLeft fieldDefinition .braceRight

def interfaces : Parser (List String) := do
  if ← skipKeyword "implements" then delimited .ampersand name else return []

def enumValue : Parser EnumValueDefinition := do
  let text ← description
  let t ← current
  if t.text ∈ ["true", "false", "null"] then
    raise (.reservedEnumValue t.display) t
  else
    let key ← name
    return ⟨text, key, ← directives true⟩

def rootOperation : Parser RootOperation := do
  let kind ← operationKind
  let _ ← expect .colon
  return ⟨kind, ← name⟩

def rootOperations : Parser (List RootOperation) :=
  optionalMany .braceLeft rootOperation .braceRight

-- The keywords of the kinds of types.
def typeKeywords : List String :=
  ["scalar", "type", "interface", "union", "enum", "input"]

def typeAfter (keyword : String) (text : Option Description) : Parser TypeDefinition := do
  let key ← name
  let shared ← if keyword = "type" ∨ keyword = "interface" then interfaces else pure []
  let ds ← directives true
  let body ← match keyword with
    | "scalar" => pure TypeBody.scalar
    | "type" => TypeBody.object shared <$> fieldDefinitions
    | "interface" => TypeBody.interface shared <$> fieldDefinitions
    | "union" => do
      if ← skip .equals then TypeBody.union <$> delimited .pipe name else pure (TypeBody.union [])
    | "enum" => TypeBody.enum <$> optionalMany .braceLeft enumValue .braceRight
    | _ => TypeBody.input <$> optionalMany .braceLeft inputDefinition .braceRight
  return ⟨text, key, ds, body⟩

def directiveLocation : Parser String := do
  let t ← current
  let key ← name
  if key ∈ directiveLocations then return key else unexpected t

def directiveDefinition (text : Option Description) : Parser Definition := do
  expectKeyword "directive"
  let _ ← expect .at
  let key ← name
  let arguments ← argumentDefinitions
  let repeatable ← skipKeyword "repeatable"
  expectKeyword "on"
  return .directive ⟨text, key, arguments, repeatable, ← delimited .pipe directiveLocation⟩

def schemaDefinition (text : Option Description) : Parser Definition := do
  expectKeyword "schema"
  let ds ← directives true
  return .schema text ds (← many .braceLeft rootOperation .braceRight)

-- Whether a type's body says nothing.
def isEmptyBody : TypeBody → Bool
  | .scalar => true
  | .object interfaces fields | .interface interfaces fields => interfaces.isEmpty && fields.isEmpty
  | .union members => members.isEmpty
  | .enum values => values.isEmpty
  | .input fields => fields.isEmpty

-- An extension, which has to say something.
def extension : Parser Definition := do
  let t ← lookahead
  if t.kind = .name ∧ t.text = "schema" then
    expectKeyword "extend"
    expectKeyword "schema"
    let ds ← directives true
    let roots ← rootOperations
    if ds.isEmpty && roots.isEmpty then unexpected (← current)
    return .schemaExtension ds roots
  else if t.kind = .name ∧ t.text ∈ typeKeywords then
    expectKeyword "extend"
    expectKeyword t.text
    let type ← typeAfter t.text none
    if type.directives.isEmpty && isEmptyBody type.body then unexpected (← current)
    return .typeExtension type
  else
    unexpected t

-- A definition. Only definitions of a schema have a description.
def definition : Parser Definition := do
  if ← peek .braceLeft then
    operation
  else
    let first ← current
    let t ← if isString first then lookahead else pure first
    if t.kind ≠ .name then
      unexpected t
    else if t.text ∈ typeKeywords then
      let text ← description
      expectKeyword t.text
      return .type (← typeAfter t.text text)
    else if t.text = "schema" then
      schemaDefinition (← description)
    else if t.text = "directive" then
      directiveDefinition (← description)
    else if isString first then
      raise .unexpectedDescription first
    else if OperationKind.all.any (·.keyword == t.text) then
      operation
    else if t.text = "fragment" then
      fragment
    else if t.text = "extend" then
      extension
    else
      unexpected t

-- A document has at least one definition.
def document : Parser Document := do
  let first ← definition
  let rest ← itemsUntil .endOfFile definition (← remaining)
  return first :: rest

end Parser

-- A value and nothing after it.
def Parser.wholeValue : Parser Value := do
  let v ← anyValue false
  let _ ← expect .endOfFile
  return v

-- The value that a text holds.
def parseValue (text : String) : Except SyntaxError Value :=
  match tokenize text.toList with
  | ⟨[], some e⟩ => .error e
  | tokens => (Parser.wholeValue.run tokens).map (·.1)

-- The document that a text holds.
def parse (text : String) : Except SyntaxError Document :=
  match tokenize text.toList with
  | ⟨[], some e⟩ => .error e
  | tokens => (Parser.document.run tokens).map (·.1)

end Graphql

end GraphqlArtifacts
