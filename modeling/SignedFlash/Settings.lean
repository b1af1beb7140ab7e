import SignedFlash.Key.Table
import SignedFlash.Toml.Document
import SignedFlash.Verify

/-!
# Settings

The configuration of the verifier: options, and the keys it knows. It is read from a TOML document
with a table `verify` and an array of tables `keys`; other names at the top level do not count, and
unknown names inside the two are errors. A table may also be written as a list of its values in
order.
-/

namespace SignedFlash

@[ext] structure KeySetting where
  name : String
  family : Family
  role : KeyRole
  keyId : Option Word
  exponent : Option Word
  modulus : Option (List Word)
  -- The file of a public key, in place of the three above.
  pem : Option String
  deriving DecidableEq

structure Settings where
  verify : Options := {}
  keys : List KeySetting := []
  deriving DecidableEq

/-! ## Reading a configuration -/

namespace Settings

open Toml (Value Entries)

def readBool? : Value → Option Bool
  | .boolean b => some b
  | _ => none

def readString? : Value → Option String
  | .string s => some s
  | _ => none

def readWord? : Value → Option Word
  | .integer i => if 0 ≤ i ∧ i < 0x100000000 then some (UInt32.ofNat i.toNat) else none
  | _ => none

def readWords? : Value → Option (List Word)
  | .array _ items => items.mapM readWord?
  | _ => none

/-- A name out of a closed set, as a text or as a table with that name and an empty table or list
in it. -/
def readName? {α : Type} (ofName? : String → Option α) : Value → Option α
  | .string s => ofName? s
  | .table _ [(name, .table _ [])] => ofName? name
  | .table _ [(name, .array _ [])] => ofName? name
  | _ => none

-- Whether all keys of a table are among the names given.
def onlyKeys (names : List String) (entries : Entries) : Bool :=
  entries.all fun entry => names.contains entry.1

-- The value of a key, if there is one; it must be readable.
def field? {α : Type} (read? : Value → Option α) (entries : Entries) (key : String) :
    Option (Option α) :=
  match entries.get? key with
  | none => some none
  | some value => (read? value).map some

def readOptions? : Value → Option Options
  | .table _ entries => do
    guard (onlyKeys ["skip_hash_checking", "verbose", "debug_buf", "strict_keys"] entries)
    let flag (key : String) : Option Bool :=
      (field? readBool? entries key).map fun b => b.getD false
    return ⟨← flag "skip_hash_checking", ← flag "verbose", ← flag "debug_buf", ← flag "strict_keys"⟩
  | .array _ items => do
    let flags ← (items.take 4).mapM readBool?
    return ⟨flags.getD 0 false, flags.getD 1 false, flags.getD 2 false, flags.getD 3 false⟩
  | _ => none

def readKey? : Value → Option KeySetting
  | .table _ entries => do
    guard (onlyKeys ["name", "family", "role", "keyid", "exponent", "modulus", "pem"] entries)
    let name ← Entries.get? entries "name"
    let family ← Entries.get? entries "family"
    let role ← Entries.get? entries "role"
    return {
      name := ← readString? name
      family := ← readName? Family.ofConfigName? family
      role := ← readName? KeyRole.ofName? role
      keyId := ← field? readWord? entries "keyid"
      exponent := ← field? readWord? entries "exponent"
      modulus := ← field? readWords? entries "modulus"
      pem := ← field? readString? entries "pem" }
  | .array _ (name :: family :: role :: keyId :: exponent :: modulus :: pem :: _) => do
    return {
      name := ← readString? name
      family := ← readName? Family.ofConfigName? family
      role := ← readName? KeyRole.ofName? role
      keyId := some (← readWord? keyId)
      exponent := some (← readWord? exponent)
      modulus := some (← readWords? modulus)
      pem := some (← readString? pem) }
  | _ => none

def readKeys? : Value → Option (List KeySetting)
  | .array _ items => items.mapM readKey?
  | _ => none

def ofEntries? (entries : Entries) : Option Settings := do
  let verify ← field? readOptions? entries "verify"
  let keys ← field? readKeys? entries "keys"
  return ⟨verify.getD {}, keys.getD []⟩

/-- The configuration in a text; `none` if it is not TOML or has the wrong shape. -/
def parse? (text : String) : Option Settings := (Toml.parse text).bind ofEntries?

end Settings

/-! ## The key table of a configuration -/

-- The reasons for which a configured key makes no entry of a key table.
inductive KeySettingError where
  -- A key file is given beside a key id or an exponent.
  | pemWithWords
  -- A key file and a modulus are given.
  | pemWithModulus
  | pemUnusable (reason : String)
  -- Neither a key file nor a modulus is given.
  | missingModulus
  -- A modulus is given without a key id.
  | missingKeyId
  | invalid (fault : Fault)
  deriving DecidableEq

def KeySettingError.message : KeySettingError → String
  | .pemWithWords => "`pem` replaces `keyid` and `exponent`"
  | .pemWithModulus => "Both `pem` and `modulus` given"
  | .pemUnusable reason => reason
  | .missingModulus => "One of `pem` or `modulus` is required"
  | .missingKeyId => "Missing `keyid`"
  | .invalid fault => fault.message

/-- Reads the public key in a key file: key id, modulus and exponent, or why it cannot be used. -/
abbrev KeyFileReader := String → Except String PublicKey

-- The entry for a configured key. A key without an exponent has exponent 3.
def KeySetting.toEntry (setting : KeySetting) (readKeyFile : KeyFileReader) :
    Except KeySettingError KeyEntry :=
  let make (keyId : Word) (modulus : List Word) (exponent : Word) :
      Except KeySettingError KeyEntry :=
    (KeyEntry.new setting.name setting.family setting.role keyId modulus exponent).mapError .invalid
  match setting.pem, setting.modulus with
  | some pem, none =>
    if setting.keyId.isSome || setting.exponent.isSome then .error .pemWithWords
    else
      match readKeyFile pem with
      | .error reason => .error (.pemUnusable reason)
      | .ok key => make key.keyId key.modulus.toList key.exponent.value
  | none, some modulus =>
    match setting.keyId with
    | none => .error .missingKeyId
    | some keyId => make keyId modulus (setting.exponent.getD 3)
  | some _, some _ => .error .pemWithModulus
  | none, none => .error .missingModulus

/-- The reasons for which a configuration makes no key table, with the name of the key at fault. -/
inductive KeyTableError where
  | invalidKey (name : String) (error : KeySettingError)
  -- A key has the key id of an earlier one.
  | refused (name : String) (fault : Fault)
  deriving DecidableEq

def KeyTableError.message : KeyTableError → String
  | .invalidKey name error => "Invalid key \x22" ++ name ++ "\x22: " ++ error.message
  | .refused name fault => "Key \x22" ++ name ++ "\x22: " ++ fault.message

def KeyTable.addSetting (readKeyFile : KeyFileReader) (table : KeyTable) (setting : KeySetting) :
    Except KeyTableError KeyTable :=
  match setting.toEntry readKeyFile with
  | .error error => .error (.invalidKey setting.name error)
  | .ok entry => (table.insert entry).mapError (.refused setting.name)

-- The table of the configured keys, in the order of the configuration.
def Settings.keyTable (settings : Settings) (readKeyFile : KeyFileReader) :
    Except KeyTableError KeyTable :=
  settings.keys.foldlM (KeyTable.addSetting readKeyFile) KeyTable.empty

end SignedFlash
