import SignedFlash.Text.Hex
import SignedFlash.Toml.Lexical
import SignedFlash.Toml.Value

/-!
# Writing TOML

The text of a document: first its plain values, then its tables and arrays of tables under their
headers, with an empty line before each header but the first line. An array of tables without tables
is written as an empty list.
-/

namespace SignedFlash.Toml

/-- A character of a basic string: itself, or the escape sequence that stands for it. -/
def escaped (c : Char) : String :=
  if c = '\x22' then "\\\x22"
  else if c = '\\' then "\\\\"
  else if c = '\x08' then "\\b"
  else if c = '\t' then "\\t"
  else if c = '\n' then "\\n"
  else if c = '\x0c' then "\\f"
  else if c = '\r' then "\\r"
  else if c.toNat < 0x20 ∨ c.toNat = 0x7f then "\\u" ++ Text.hexUpper 4 c.toNat
  else c.toString

def quoted (s : String) : String := "\x22" ++ String.join (s.toList.map escaped) ++ "\x22"

def renderKey (key : String) : String :=
  if !key.isEmpty && key.toList.all isBareKeyChar then key else quoted key

-- Texts between an opening and a closing text, with commas between them.
def bracketed (opening closing : String) (items : List String) : String :=
  opening ++ ", ".intercalate items ++ closing

mutual

def renderValue : Value → String
  | .string s => quoted s
  | .integer i => toString i
  | .float text => text
  | .boolean b => if b then "true" else "false"
  | .datetime text => text
  | .array _ items => bracketed "[" "]" (renderItems items)
  | .table _ entries => bracketed "\x7b " " \x7d" (renderEntries entries)

def renderItems : List Value → List String
  | [] => []
  | item :: items => renderValue item :: renderItems items

-- The entries of a table, each on one line.
def renderEntries : List (String × Value) → List String
  | [] => []
  | (key, value) :: entries =>
    (renderKey key ++ " = " ++ renderValue value) :: renderEntries entries

end

-- Whether a value is written under a header of its own.
def hasHeader : Value → Bool
  | .array ofTables items => ofTables && !items.isEmpty
  | .table origin _ => origin != .braces
  | _ => false

-- The lines of a table under the given header.
def renderSection (heading : String) : Value → List String
  | .table _ entries => heading :: renderEntries entries
  | _ => []

-- The sections of an entry that is written under headers.
def renderSections (entry : String × Value) : List (List String) :=
  match entry.2 with
  | .array _ items => items.map (renderSection ("[[" ++ renderKey entry.1 ++ "]]"))
  | table => [renderSection ("[" ++ renderKey entry.1 ++ "]") table]

def endLines (lines : List String) : String := String.join (lines.map (· ++ "\n"))

def render (document : Entries) : String :=
  let plain := renderEntries (document.filter fun entry => !hasHeader entry.2)
  let sections := (document.filter fun entry => hasHeader entry.2).flatMap renderSections
  let parts := if plain.isEmpty then sections else plain :: sections
  "\n".intercalate (parts.map endLines)

end SignedFlash.Toml
