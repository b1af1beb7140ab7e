import SignedFlash.Command.HeaderInfo
import SignedFlash.Toml.Printer

/-!
# The command `dump`

Prints the keys of a flash image as a configuration, followed by details of every signed header.
Each key id is listed once, with the modulus of the first header that has it. The exponent of a key
is the one under which that header's image verifies, or 3 if none does.
-/

namespace SignedFlash

structure DumpRequest where
  image : String
  deriving DecidableEq

structure ImageDetails where
  offset : Nat
  family : Family
  place : Section
  keyId : Word
  signature : Number
  fuseMap : Words 4
  infoMap : Words 4
  deriving DecidableEq

structure Dump where
  keys : List KeySetting
  images : List ImageDetails
  deriving DecidableEq

/-! ## Writing a dump -/

def wordValue (w : Word) : Toml.Value := .integer w.toNat

def wordsValue (ws : List Word) : Toml.Value := .array false (ws.map wordValue)

/-- A key as a table of a document; settings that are not given are left out. -/
def KeySetting.toValue (key : KeySetting) : Toml.Value :=
  .table .header <|
    [("name", .string key.name), ("family", .string key.family.configName),
      ("role", .string key.role.name)] ++
    (key.keyId.toList.map fun w => ("keyid", wordValue w)) ++
    (key.exponent.toList.map fun w => ("exponent", wordValue w)) ++
    (key.modulus.toList.map fun ws => ("modulus", wordsValue ws)) ++
    (key.pem.toList.map fun path => ("pem", .string path))

-- The details of a header as a table of a document.
def ImageDetails.toValue (d : ImageDetails) : Toml.Value :=
  .table .header [
    ("offset", .integer d.offset), ("family", .string d.family.configName),
    ("section", .string d.place.name), ("keyid", wordValue d.keyId),
    ("signature", .string (Text.hexBytes d.signature.bytes)),
    ("fusemap", wordsValue d.fuseMap.toList), ("infomap", wordsValue d.infoMap.toList)]

def Dump.toEntries (dump : Dump) : Toml.Entries := [
  ("keys", .array true (dump.keys.map KeySetting.toValue)),
  ("images", .array true (dump.images.map ImageDetails.toValue))]

def Dump.text (dump : Dump) : String := Toml.render dump.toEntries

/-! ## Making a dump -/

/-- The role of the key of an image: the boot ROM checks the read-only sections, the loader all
others. -/
def Section.keyRole : Section → KeyRole
  | .roA => .rom
  | .roB => .rom
  | _ => .loader

section

-- What the sessions draw from in which images are verified.
variable (source : RandomSource)

/-- The exponent for a header's key, and what was logged in finding it: 65537 if the image verifies
with it, else 3. There is none if the key id does not match the modulus. -/
def detectExponent (site : Site) (h : Header) (family : Family) (role : KeyRole) :
    Option (Exponent × List LogLine) :=
  match KeyEntry.new "e65537 check" family role h.keyId h.key.toList Exponent.fermatFour.value with
  | .error _ => none
  | .ok entry =>
    let v : Verifier := ⟨{ strictKeys := true }, ⟨[entry]⟩, InfoBank.erased⟩
    let checked := v.verifySite (Session.start source) site
    some (if checked.report.isVerified then .fermatFour else .three, checked.log)

-- Adds the header at a site to a dump and a log.
def Dump.addHeader (site : Site) (h : Header) (family : Family)
    (state : Dump × List LogLine) : Dump × List LogLine :=
  let (dump, log) := state
  let place := family.sectionAt h.roBase
  let details : ImageDetails :=
    ⟨site.offset, family, place, h.keyId, h.signature, h.fuseMap, h.infoMap⟩
  let dump := { dump with images := dump.images ++ [details] }
  if dump.keys.any fun key => key.keyId == some h.keyId then (dump, log)
  else
    let role := place.keyRole
    match detectExponent source site h family role with
    | none =>
      (dump, log ++ [⟨.warn, "Key " ++ Text.hexWord h.keyId ++ " at offset " ++
        Text.hexNumber site.offset ++ " is not a valid public key"⟩])
    | some (exponent, found) =>
      let key : KeySetting := {
        name := family.name ++ " " ++ role.name ++ " " ++ Text.hex 8 h.keyId.toNat
        family := family
        role := role
        keyId := some h.keyId
        exponent := some exponent.value
        modulus := some h.key.toList
        pem := none }
      ({ dump with keys := dump.keys ++ [key] }, log ++ found)

-- Adds the candidate at a site to a dump and a log.
def Dump.addCandidate (state : Dump × List LogLine) (site : Site) : Dump × List LogLine :=
  match site.candidate with
  | .ok (.header h) =>
    match h.family? with
    | some family => Dump.addHeader source site h family state
    | none => state
  | _ => state

/-- The keys and headers of a flash image, and what was logged in finding them. -/
def dumpImage (buf : Bytes) : Dump × List LogLine :=
  (candidates buf 0).foldl (Dump.addCandidate source) (⟨[], []⟩, [])

end

def DumpRequest.run (request : DumpRequest) (files : Files) (source : RandomSource) : Outcome :=
  withImage files request.image fun image =>
    let (dump, log) := dumpImage source image
    ⟨log, dump.text, .ok true⟩

end SignedFlash
