import SignedFlash.Toml.Statement

/-!
# TOML documents

The table that the statements of a document build. No key gets a value twice, no table is opened
twice, and a table whose content is complete is not added to.
-/

namespace SignedFlash.Toml

-- A change of the entries of a table, which may be refused.
abbrev Change := Entries → Option Entries

-- Applies a change to the last table of an array.
def changeLast (change : Change) : List Value → Option (List Value)
  | [] => none
  | [.table origin entries] => do
    let entries ← change entries
    return [.table origin entries]
  | [_] => none
  | item :: items => do
    let items ← changeLast change items
    return item :: items

/-- Applies a change to the table that a path leads to. Tables on the way that do not exist are
made, with the origin given; of an array of tables, the last one counts. A path of a dotted key
leads through no table that has a header. -/
def changeAt (made : TableOrigin) (change : Change) : List String → Change
  | [], entries => change entries
  | part :: path, entries =>
    match entries.get? part with
    | none => do
      let inner ← changeAt made change path []
      return entries.put part (.table made inner)
    | some (.table .braces _) => none
    | some (.table origin inner) =>
      if made = .dotted ∧ origin = .header then none
      else do
        let inner ← changeAt made change path inner
        return entries.put part (.table origin inner)
    | some (.array true items) => do
      let items ← changeLast (changeAt made change path) items
      return entries.put part (.array true items)
    | some _ => none

/-- Opens the table with a key. A table that is only implied by others may be opened. -/
def openTable (key : String) : Change := fun entries =>
  match entries.get? key with
  | none => some (entries.put key (.table .header []))
  | some (.table .implied inner) => some (entries.put key (.table .header inner))
  | some _ => none

-- Opens the next table of the array with a key.
def openArrayTable (key : String) : Change := fun entries =>
  match entries.get? key with
  | none => some (entries.put key (.array true [.table .header []]))
  | some (.array true items) => some (entries.put key (.array true (items ++ [.table .header []])))
  | some _ => none

-- Gives a key a value, unless it has one.
def assignKey (key : String) (value : Value) : Change := fun entries =>
  match entries.get? key with
  | none => some (entries.put key value)
  | some _ => none

/-- Whether the table that the path of a dotted key leads to may be added to: a table that a dotted
key made, or one that is not there yet. -/
def mayExtend : List String → Entries → Bool
  | [], _ => true
  | part :: path, entries =>
    match entries.get? part with
    | none => true
    | some (.table origin inner) => if path.isEmpty then origin = .dotted else mayExtend path inner
    | some (.array true items) =>
      if path.isEmpty then false
      else match items.getLast? with
        | some (.table _ inner) => mayExtend path inner
        | _ => false
    | some _ => false

-- Gives a dotted key of a table a value.
def assignDotted (name : DottedKey) (value : Value) : Change := fun entries =>
  if mayExtend name.path entries then
    changeAt .dotted (assignKey name.key value) name.path entries
  else
    none

-- A document in the making: its entries, and the path of the open table.
structure Draft where
  entries : Entries
  openPath : List String

def Draft.apply (draft : Draft) : Statement → Option Draft
  | .table name => do
    let entries ← changeAt .implied (openTable name.key) name.path draft.entries
    return ⟨entries, name.path ++ [name.key]⟩
  | .arrayTable name => do
    let entries ← changeAt .implied (openArrayTable name.key) name.path draft.entries
    return ⟨entries, name.path ++ [name.key]⟩
  | .assign name value => do
    let entries ← changeAt .implied (assignDotted name value) draft.openPath draft.entries
    return { draft with entries := entries }

-- The entries of a document; `none` if its text is not TOML.
def parse (document : String) : Option Entries := do
  let statements ← statements document
  let draft ← statements.foldlM Draft.apply ⟨[], []⟩
  return draft.entries

end SignedFlash.Toml
