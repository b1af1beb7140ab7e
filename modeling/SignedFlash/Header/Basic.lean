import SignedFlash.Family
import SignedFlash.Shape

/-!
# Signed headers

The header at the start of a signed image, and what its words say: family, version, board, device
lock, swap mark and trailer. Two words and the board id are stored exclusive-or the padding word,
so that padding reads as zero.
-/

namespace SignedFlash

-- The size of a signed header, and of a signed manifest.
def structureSize : Nat := 1024

/-- The signed header that a Haven, Citadel or Dauntless image starts with, 1024 bytes long. -/
@[ext] structure Header where
  magic : Word
  signature : Words 96
  imageCheck : Word
  -- A free tag, where the hashed part starts.
  tag : Words 7
  -- The id of the signing key, which is also the Montgomery inverse of its modulus.
  keyId : Word
  key : Words 96
  -- The size of the image in bytes, header included.
  imageSize : Word
  roBase : Word
  roMax : Word
  rxBase : Word
  rxMax : Word
  -- The fuse words that are hashed, one bit each.
  fuseMap : Words 4
  -- The info words that are hashed, one bit each.
  infoMap : Words 4
  epoch : Word
  major : Word
  minor : Word
  -- When the image was signed, in seconds of the Unix era.
  timestamp : UInt64
  p4cl : Word
  applySec : Word
  -- Bits to mix into the first configuration word.
  config1 : Word
  errResponse : Word
  -- What to do when an expectation is violated.
  expectResponse : Word
  trailerWords : Words 17
  pad : Words 5
  -- The size and place of the swap mark.
  swapMark : Word
  storedProductFamily : Word
  storedBoardId : BoardId
  -- The first id of the only device the image may run on.
  deviceId0 : Word
  -- The second id of the only device the image may run on.
  deviceId1 : Word
  fusesCheck : Word
  infoCheck : Word
  deriving DecidableEq

inductive Trailer where
  -- A second signature, with the id of its key.
  | extraSignature (keyId : Word) (r s : Words 8)
  | flashTrim (values : Words 8)
  deriving DecidableEq

/-! Maps of 128 words, one bit each: bit `i` of word `j` stands for word `32 * j + i`. -/

namespace Selection

-- The number of words that a map can select.
def limit : Nat := 128

def selects (selection : Words 4) (i : Nat) : Bool := (selection.getD (i / 32)).testBit (i % 32)

-- Whether a map selects word `i`; `none` if there is no such word.
def selects? (selection : Words 4) (i : Nat) : Option Bool :=
  if i < limit then some (selects selection i) else none

-- Selects word `i` too; `none` if there is no such word.
def mark? (selection : Words 4) (i : Nat) : Option (Words 4) :=
  if i < limit then
    some (selection.modify (i / 32) fun w => w ||| ((1 : Word) <<< UInt32.ofNat (i % 32)))
  else
    none

end Selection

namespace Header

/-- The byte, counted from the start of the header, from which on an image is hashed. -/
def hashedFrom : Nat := 392

def family? (h : Header) : Option Family := Family.ofMagic? h.magic

def versionText (h : Header) : String :=
  s!"{h.epoch.toNat}.{h.major.toNat}.{h.minor.toNat}"

def boardId (h : Header) : BoardId := h.storedBoardId.xorPadding

def setBoardId (h : Header) (b : BoardId) : Header := { h with storedBoardId := b.xorPadding }

-- The product family the image is for; zero is any.
def productFamily (h : Header) : Word := h.storedProductFamily ^^^ paddingWord

-- The board id bits for which a device is refused; zero admits the image.
def boardIdMismatch (h : Header) (device : BoardId) : Word := h.boardId.mismatch device

/-- What the trailer holds. Trim values are found only in headers of Dauntless chips that announce
them in the first configuration word. -/
def trailer (h : Header) : Trailer :=
  if h.magic = Family.dauntless.magic ∧ Word.testBit h.config1 16 then
    .flashTrim (h.trailerWords.slice 0 8)
  else
    .extraSignature (h.trailerWords.getD 0) (h.trailerWords.slice 1 8) (h.trailerWords.slice 9 8)

def swapMarkSize (h : Header) : Word := h.swapMark &&& 0xfff

def swapMarkOffset (h : Header) : Word := h.swapMark >>> 12

-- Whether a device id is set: neither zero nor padding.
def deviceIdSet (id : Word) : Bool := id != 0 && id != paddingWord

-- Whether the image may run on one device only.
def isNodeLocked (h : Header) : Bool := deviceIdSet h.deviceId0 || deviceIdSet h.deviceId1

/-- Whether the signing key is a production key, which bit 2 of its id tells. -/
def signedForProduction (h : Header) : Bool := Word.testBit h.keyId 2

-- Whether fuse word `i` is hashed; `none` if there is no such word.
def fuseSelected? (h : Header) (i : Nat) : Option Bool := Selection.selects? h.fuseMap i

-- Whether info word `i` is hashed; `none` if there is no such word.
def infoSelected? (h : Header) (i : Nat) : Option Bool := Selection.selects? h.infoMap i

-- Selects fuse word `i` too; `none` if there is no such word.
def markFuse? (h : Header) (i : Nat) : Option Header :=
  (Selection.mark? h.fuseMap i).map fun selection => { h with fuseMap := selection }

-- Selects info word `i` too; `none` if there is no such word.
def markInfo? (h : Header) (i : Nat) : Option Header :=
  (Selection.mark? h.infoMap i).map fun selection => { h with infoMap := selection }

end Header

end SignedFlash
