import SignedFlash.Header.Basic

/-!
# One-time-programmable memory

The fuse bank and the info bank of a chip, 128 words each, and what a boot ROM senses of them for a
header. A word that the header does not select is replaced by a constant of the chip family, so that
the digest of a bank does not depend on it.
-/

namespace SignedFlash

abbrev Bank := Words 128

/-- The family whose constants are used for a header; an unknown magic counts as Dauntless. -/
def Header.sensingFamily (h : Header) : Family := h.family?.getD .dauntless

namespace FuseBank

def unprogrammed : Word := 0x55555555

/-- The fuse word that holds the device id of an image locked to one device. -/
def nodeLockIndex : Nat := 126

/-- The fuse bank of a chip of the header's family whose device ids are those of the header. -/
def ofHeader (h : Header) : Bank :=
  let blank : Bank := .replicate 128 unprogrammed
  match h.family? with
  | some .haven =>
    ((((blank.set 0x06 h.deviceId0).set 0x07 h.deviceId1).set 0x47 0x55555502).set 0x55
      0x55555137).set 0x7d 0x55555540
  | some .citadel => (blank.set 0x14 h.deviceId0).set 0x18 h.deviceId1
  | some .dauntless => ((blank.set 0x08 0x55555542).set 0x35 0x55555550).set 0x3e 0x55555540
  | none => blank

/-- The fuse words that are hashed: those that the header selects, and the device id of an image
locked to one device. If both device ids are set, the second one counts. -/
def sense (bank : Bank) (h : Header) : Bank :=
  let ignore := h.sensingFamily.fuseIgnore
  let selected := bank.mapIdx fun i w => if Selection.selects h.fuseMap i then w else ignore
  let lock (b : Bank) (id : Word) : Bank :=
    if Header.deviceIdSet id then b.set nodeLockIndex id else b
  lock (lock selected h.deviceId0) h.deviceId1

end FuseBank

namespace InfoBank

-- The info bank of a chip with erased flash.
def erased : Bank := .replicate 128 0xffffffff

/-- The info words that are hashed: those that the header selects, exclusive-or the family's
constant, which stands alone for all others. -/
def sense (bank : Bank) (h : Header) : Bank :=
  let ignore := h.sensingFamily.infoIgnore
  bank.mapIdx fun i w => if Selection.selects h.infoMap i then ignore ^^^ w else ignore

end InfoBank

end SignedFlash
