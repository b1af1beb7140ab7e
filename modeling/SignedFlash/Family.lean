import SignedFlash.Word

/-!
# Chip families

The security chip families a signed header can be for, what their boot ROMs hash in place of
unselected fuse and info words, and the flash sections their images are loaded into.
-/

namespace SignedFlash

-- A chip family, which the magic of a signed header selects.
inductive Family where
  | haven
  | citadel
  | dauntless
  deriving DecidableEq, Repr

inductive Section where
  | roA
  | rwA
  | roB
  | rwB
  | unknown
  deriving DecidableEq, Repr

def Section.name : Section → String
  | .roA => "RO_A"
  | .rwA => "RW_A"
  | .roB => "RO_B"
  | .rwB => "RW_B"
  | .unknown => "??"

namespace Family

def magic : Family → Word
  | .haven => 0xffffffff
  | .citadel => 0xfffffffe
  | .dauntless => 0xfffffffd

def ofMagic? (magic : Word) : Option Family :=
  if magic = 0xffffffff then some .haven
  else if magic = 0xfffffffe then some .citadel
  else if magic = 0xfffffffd then some .dauntless
  else none

def name : Family → String
  | .haven => "Haven"
  | .citadel => "Citadel"
  | .dauntless => "Dauntless"

def configName : Family → String
  | .haven => "haven"
  | .citadel => "citadel"
  | .dauntless => "dauntless"

def ofConfigName? : String → Option Family
  | "haven" => some .haven
  | "citadel" => some .citadel
  | "dauntless" => some .dauntless
  | _ => none

-- What is hashed for a fuse word that the header does not select.
def fuseIgnore : Family → Word
  | .haven => 0xa3badaac
  | .citadel => 0x3aabadac
  | .dauntless => 0xdaa3baca

-- What is hashed for an info word that the header does not select.
def infoIgnore : Family → Word
  | .haven => 0xaa3c55c3
  | .citadel => 0xa5c35a3c
  | .dauntless => 0x5a3ca5c3

/-- The section of an image loaded at `base`. The writable sections of a Dauntless chip hold images
anywhere inside them; all other images start their section. -/
def sectionAt (family : Family) (base : Word) : Section :=
  match family with
  | .haven | .citadel =>
    if base = 0x40000 then .roA
    else if base = 0x44000 then .rwA
    else if base = 0x80000 then .roB
    else if base = 0x84000 then .rwB
    else .unknown
  | .dauntless =>
    if base = 0x80000 then .roA
    else if 0x84000 ≤ base ∧ base ≤ 0xfffff then .rwA
    else if base = 0x100000 then .roB
    else if 0x104000 ≤ base ∧ base ≤ 0x183fff then .rwB
    else .unknown

theorem ofMagic?_magic (family : Family) : ofMagic? family.magic = some family := by
  cases family <;> decide

-- No two families have one magic number, and no other number is one.
theorem eq_magic_of_ofMagic? {w : Word} {family : Family} (h : ofMagic? w = some family) :
    w = family.magic := by
  unfold ofMagic? at h
  repeat' split at h
  all_goals cases h
  all_goals assumption

theorem infoIgnore_injective {a b : Family} (h : a.infoIgnore = b.infoIgnore) : a = b := by
  revert h
  cases a <;> cases b <;> decide

end Family

end SignedFlash
