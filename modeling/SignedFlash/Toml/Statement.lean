import SignedFlash.Toml.Lexical
import SignedFlash.Toml.Value

/-!
# The statements of a TOML document

A document is a sequence of lines that each open a table, open a table of an array, or give a key a
value.
-/

namespace SignedFlash.Toml

open Reader

-- How deep values may be nested and how long a dotted key may be.
def nestingLimit : Nat := 80

/-- A key with dots, as the keys of the tables on the way and the last key. -/
structure DottedKey where
  path : List String
  key : String

inductive Statement where
  | table (name : DottedKey)
  | arrayTable (name : DottedKey)
  -- Gives a key of the open table a value.
  | assign (name : DottedKey) (value : Value)

def simpleKey : Reader String :=
  basicString <|> literalString <|> (String.ofList <$> takeWhile1 isBareKeyChar)

-- A key, with blanks around each of its parts.
def dottedKey : Reader DottedKey := do
  let parts ← separated1 '.' (do blanks; let part ← simpleKey; blanks; return part)
  guard (parts.length < nestingLimit)
  match parts.getLast? with
  | some key => return ⟨parts.dropLast, key⟩
  | none => failure

/-- Adds to the entries of a table in braces, at a path and a key. Dotted keys may add to tables
that dotted keys made. -/
def Entries.insertInBraces (key : String) (value : Value) : List String → Entries → Option Entries
  | [], entries =>
    match entries.get? key with
    | some _ => none
    | none => some (entries.put key value)
  | part :: path, entries =>
    match entries.get? part with
    | none => do
      let inner ← insertInBraces key value path []
      return entries.put part (.table .dotted inner)
    | some (.table .dotted inner) => do
      let inner ← insertInBraces key value path inner
      return entries.put part (.table .dotted inner)
    | some _ => none

-- The items of an array, up to its closing bracket.
def arrayItems (item : Reader Value) : Reader (List Value) := do
  let items ← separated ',' (do space; let value ← item; space; return value)
  unless items.isEmpty do discard <| optional? (char ',')
  space
  char ']'
  return items

-- The entries of a table in braces, up to the closing brace.
def braceEntries (item : Reader Value) : Reader Entries := do
  let pairs ← separated ',' do
    let name ← dottedKey
    char '='
    blanks
    let value ← item
    blanks
    return (name, value)
  blanks
  char '\x7d'
  let insert (entries : Entries) (pair : DottedKey × Value) : Option Entries :=
    Entries.insertInBraces pair.1.key pair.2 pair.1.path entries
  match pairs.foldlM insert [] with
  | some entries => return entries
  | none => failure

-- A value that contains no other, by its first character.
def scalar : Reader Value := do
  match ← peek? with
  | some '\x22' => .string <$> anyString
  | some '\x27' => .string <$> anyString
  | some 't' => do literal "true"; return .boolean true
  | some 'f' => do literal "false"; return .boolean false
  | some 'i' => .float <$> float
  | some 'n' => .float <$> float
  | _ => .datetime <$> datetime <|> .float <$> float <|> .integer <$> integer

-- A value with at most `depth` arrays and tables in braces around any part.
def value : (depth : Nat) → Reader Value
  | 0 => do
    match ← peek? with
    | some '[' => failure
    | some '\x7b' => failure
    | _ => scalar
  | depth + 1 => do
    match ← peek? with
    | some '[' => do
      char '['
      return .array false (← arrayItems (value depth))
    | some '\x7b' => do
      char '\x7b'
      return .table .braces (← braceEntries (value depth))
    | _ => scalar

-- The header of a table, or of a table of an array.
def header : Reader Statement := do
  char '['
  match ← optional? (char '[') with
  | some () => do
    let name ← dottedKey
    literal "]]"
    return .arrayTable name
  | none => do
    let name ← dottedKey
    char ']'
    return .table name

def assignment : Reader Statement := do
  let name ← dottedKey
  char '='
  blanks
  return .assign name (← value (nestingLimit - 1))

def line : Reader (Option Statement) := do
  blanks
  let statement ← optional? (header <|> assignment)
  lineEnd
  return statement

def lines : Reader (List (Option Statement)) := do
  let lines ← many (do notAtEnd; line)
  endOfText
  return lines

/-- The statements of a document. A mark of the byte order in front does not count. -/
def statements (document : String) : Option (List Statement) :=
  let text := match document.toList with
    | '\ufeff' :: rest => rest
    | text => text
  (lines text).map fun (lines, _) => lines.filterMap id

end SignedFlash.Toml
