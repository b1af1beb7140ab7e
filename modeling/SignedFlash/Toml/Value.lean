/-!
# TOML values

The values of a TOML document. A table remembers how it came to be, because that decides whether
later lines may add to it.
-/

namespace SignedFlash.Toml

inductive TableOrigin where
  | header
  -- The header of a table inside it implies it.
  | implied
  | dotted
  | braces
  deriving DecidableEq, Repr

inductive Value where
  | string (s : String)
  | integer (i : Int)
  -- A number that is not whole, by its text.
  | float (text : String)
  | boolean (b : Bool)
  -- A date, a time or both, by its text.
  | datetime (text : String)
  -- A list in brackets or, if `ofTables`, of tables that each have a header.
  | array (ofTables : Bool) (items : List Value)
  | table (origin : TableOrigin) (entries : List (String × Value))

/-- The keys and values of a table, in the order in which they were added. -/
abbrev Entries := List (String × Value)

namespace Entries

def get? (entries : Entries) (key : String) : Option Value := entries.lookup key

/-- Gives a key a value, in the place of its former value if it had one. -/
def put : Entries → String → Value → Entries
  | [], key, value => [(key, value)]
  | (k, v) :: rest, key, value =>
    if k = key then (k, value) :: rest else (k, v) :: put rest key value

theorem get?_put (entries : Entries) (key other : String) (value : Value) :
    get? (put entries key value) other =
      if other = key then some value else get? entries other := by
  have differs {a b : String} (h : a ≠ b) : (a == b) = false := by simp [h]
  induction entries with
  | nil => by_cases h : other = key <;> simp [put, get?, List.lookup_cons, h, differs]
  | cons entry rest ih =>
    obtain ⟨k, v⟩ := entry
    simp only [get?] at ih
    by_cases hk : k = key
    · subst hk
      by_cases h : other = k <;> simp [put, get?, List.lookup_cons, h, differs]
    · by_cases h : other = k
      · subst h
        simp [put, get?, hk]
      · simp [put, get?, List.lookup_cons, hk, differs h, ih]

end Entries

end SignedFlash.Toml
