import SignedFlash.Word

/-!
# Board ids

A board id binds an image to a kind of board. In a header it holds a type, a mask of the type bits
that count, and required flags; on a device it holds the type, the type's complement, and the
device's flags.
-/

namespace SignedFlash

-- The word that header padding consists of; some fields are stored exclusive-or this word.
def paddingWord : Word := 0x33333333

@[ext] structure BoardId where
  id : Word
  -- The type bits that count or, on a device, the complement of the type.
  mask : Word
  flags : Word
  deriving DecidableEq, Inhabited

namespace BoardId

def typeIsBlank (b : BoardId) : Bool := b.id &&& b.mask == 0xffffffff

def flagsAreBlank (b : BoardId) : Bool := b.flags == 0xffffffff

def isBlank (b : BoardId) : Bool := b.typeIsBlank && b.flagsAreBlank

/-- The stored form of a board id, or the board id of a stored form: the two are the same. -/
def xorPadding (b : BoardId) : BoardId :=
  ⟨b.id ^^^ paddingWord, b.mask ^^^ paddingWord, b.flags ^^^ paddingWord⟩

/-- The bits in which a device violates what an image requires; zero admits the image. Every flag
required must be present, and then, unless the device has no type, every type bit that counts must
agree with the device's type and differ from its complement. -/
def mismatch (required device : BoardId) : Word :=
  if required.flags &&& device.flags ≠ required.flags then 1
  else if device.typeIsBlank then 0
  else ((required.id ^^^ device.id) ||| (required.id ^^^ ~~~device.mask)) &&& required.mask

theorem xorPadding_xorPadding (b : BoardId) : b.xorPadding.xorPadding = b := by
  have h (w : Word) : w ^^^ paddingWord ^^^ paddingWord = w := by
    rw [UInt32.xor_assoc, UInt32.xor_self, UInt32.xor_zero]
  simp [xorPadding, h]

end BoardId

end SignedFlash
