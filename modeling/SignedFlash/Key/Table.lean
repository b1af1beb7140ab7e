import SignedFlash.Family
import SignedFlash.Header.Basic
import SignedFlash.Rsa.PublicKey

/-!
# Key tables

The keys that a verifier knows, found by key id. A header whose key id is not in the table is
verified with the key that the header itself carries, which proves no more than that the image is
consistent, and is marked as such.
-/

namespace SignedFlash

-- Which stage of the boot checks images signed with a key.
inductive KeyRole where
  | rom
  | loader
  deriving DecidableEq, Repr

namespace KeyRole

def name : KeyRole → String
  | .rom => "rom"
  | .loader => "loader"

def ofName? : String → Option KeyRole
  | "rom" => some .rom
  | "loader" => some .loader
  | _ => none

end KeyRole

@[ext] structure KeyEntry where
  name : String
  family : Family
  role : KeyRole
  key : PublicKey
  deriving DecidableEq

namespace KeyEntry

/-- The entry for a key given in words. Its modulus must have 96 words, its exponent be 3 or 65537,
and its key id be the inverse of the modulus; the first of these rules that fails is reported. -/
def new (name : String) (family : Family) (role : KeyRole) (keyId : Word) (modulus : List Word)
    (exponent : Word) : Except Fault KeyEntry :=
  if h : modulus.length = 96 then
    match Exponent.ofWord exponent with
    | .error fault => .error fault
    | .ok exponent =>
      match PublicKey.new keyId ⟨modulus, h⟩ exponent with
      | .error fault => .error fault
      | .ok key => .ok ⟨name, family, role, key⟩
  else
    .error .modulusLength

-- The key id under which the entry is found.
def keyId (entry : KeyEntry) : Word := entry.key.keyId

end KeyEntry

inductive KeySource where
  | table (name : String) (family : Family) (role : KeyRole)
  | header
  deriving DecidableEq

namespace KeySource

def isUnverified : KeySource → Bool
  | .table .. => false
  | .header => true

def describe : KeySource → String
  | .table name family role => name ++ " (" ++ family.name ++ " " ++ role.name ++ ")"
  | .header => "header key (unverified)"

end KeySource

-- A key for an image, and where it comes from.
@[ext] structure ResolvedKey where
  key : PublicKey
  source : KeySource
  deriving DecidableEq

-- A table of keys, in the order in which they were inserted.
structure KeyTable where
  entries : List KeyEntry
  deriving DecidableEq

namespace KeyTable

def empty : KeyTable := ⟨[]⟩

def size (table : KeyTable) : Nat := table.entries.length

def isEmpty (table : KeyTable) : Bool := table.entries.isEmpty

def get? (table : KeyTable) (keyId : Word) : Option KeyEntry :=
  table.entries.find? fun entry => entry.keyId == keyId

-- Adds an entry, unless the table has one with its key id.
def insert (table : KeyTable) (entry : KeyEntry) : Except Fault KeyTable :=
  if (table.get? entry.keyId).isSome then .error .duplicateKeyId
  else .ok ⟨table.entries ++ [entry]⟩

-- The table of the given entries, which must have different key ids.
def ofList (entries : List KeyEntry) : Except Fault KeyTable := entries.foldlM insert empty

/-- The key for a header: the table's, or else the header's own with exponent 3. -/
def resolve (table : KeyTable) (h : Header) : ResolvedKey :=
  match table.get? h.keyId with
  | some entry => ⟨entry.key, .table entry.name entry.family entry.role⟩
  | none => ⟨⟨h.keyId, h.key, .three⟩, .header⟩

end KeyTable

end SignedFlash
