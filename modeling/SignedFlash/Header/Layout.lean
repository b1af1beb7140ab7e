import SignedFlash.Header.Basic

/-!
# The layout of signed headers

Where each field of a header lies, and the bytes of a header.
-/

namespace SignedFlash

namespace Header

inductive Field where
  | magic
  | signature
  | imageCheck
  | tag
  | keyId
  | key
  | imageSize
  | roBase
  | roMax
  | rxBase
  | rxMax
  | fuseMap
  | infoMap
  | epoch
  | major
  | minor
  | timestamp
  | p4cl
  | applySec
  | config1
  | errResponse
  | expectResponse
  | trailerWords
  | pad
  | swapMark
  | storedProductFamily
  | storedBoardId
  | deviceId0
  | deviceId1
  | fusesCheck
  | infoCheck
  deriving DecidableEq, Repr

namespace Field

-- The fields in the order in which they are stored.
def all : List Field := [
  .magic, .signature, .imageCheck, .tag, .keyId, .key, .imageSize, .roBase, .roMax, .rxBase,
  .rxMax, .fuseMap, .infoMap, .epoch, .major, .minor, .timestamp, .p4cl, .applySec, .config1,
  .errResponse, .expectResponse, .trailerWords, .pad, .swapMark, .storedProductFamily,
  .storedBoardId, .deviceId0, .deviceId1, .fusesCheck, .infoCheck]

def shape : Field → Shape
  | .magic => .word
  | .signature => .words 96
  | .imageCheck => .word
  | .tag => .words 7
  | .keyId => .word
  | .key => .words 96
  | .imageSize => .word
  | .roBase => .word
  | .roMax => .word
  | .rxBase => .word
  | .rxMax => .word
  | .fuseMap => .words 4
  | .infoMap => .words 4
  | .epoch => .word
  | .major => .word
  | .minor => .word
  | .timestamp => .double
  | .p4cl => .word
  | .applySec => .word
  | .config1 => .word
  | .errResponse => .word
  | .expectResponse => .word
  | .trailerWords => .words 17
  | .pad => .words 5
  | .swapMark => .word
  | .storedProductFamily => .word
  | .storedBoardId => .boardId
  | .deviceId0 => .word
  | .deviceId1 => .word
  | .fusesCheck => .word
  | .infoCheck => .word

def offset : Field → Nat
  | .magic => 0
  | .signature => 4
  | .imageCheck => 388
  | .tag => 392
  | .keyId => 420
  | .key => 424
  | .imageSize => 808
  | .roBase => 812
  | .roMax => 816
  | .rxBase => 820
  | .rxMax => 824
  | .fuseMap => 828
  | .infoMap => 844
  | .epoch => 860
  | .major => 864
  | .minor => 868
  | .timestamp => 872
  | .p4cl => 880
  | .applySec => 884
  | .config1 => 888
  | .errResponse => 892
  | .expectResponse => 896
  | .trailerWords => 900
  | .pad => 968
  | .swapMark => 988
  | .storedProductFamily => 992
  | .storedBoardId => 996
  | .deviceId0 => 1008
  | .deviceId1 => 1012
  | .fusesCheck => 1016
  | .infoCheck => 1020

end Field

def get (x : Header) : (field : Field) → field.shape.Value
  | .magic => x.magic
  | .signature => x.signature
  | .imageCheck => x.imageCheck
  | .tag => x.tag
  | .keyId => x.keyId
  | .key => x.key
  | .imageSize => x.imageSize
  | .roBase => x.roBase
  | .roMax => x.roMax
  | .rxBase => x.rxBase
  | .rxMax => x.rxMax
  | .fuseMap => x.fuseMap
  | .infoMap => x.infoMap
  | .epoch => x.epoch
  | .major => x.major
  | .minor => x.minor
  | .timestamp => x.timestamp
  | .p4cl => x.p4cl
  | .applySec => x.applySec
  | .config1 => x.config1
  | .errResponse => x.errResponse
  | .expectResponse => x.expectResponse
  | .trailerWords => x.trailerWords
  | .pad => x.pad
  | .swapMark => x.swapMark
  | .storedProductFamily => x.storedProductFamily
  | .storedBoardId => x.storedBoardId
  | .deviceId0 => x.deviceId0
  | .deviceId1 => x.deviceId1
  | .fusesCheck => x.fusesCheck
  | .infoCheck => x.infoCheck

def set (x : Header) : (field : Field) → field.shape.Value → Header
  | .magic, v => { x with magic := v }
  | .signature, v => { x with signature := v }
  | .imageCheck, v => { x with imageCheck := v }
  | .tag, v => { x with tag := v }
  | .keyId, v => { x with keyId := v }
  | .key, v => { x with key := v }
  | .imageSize, v => { x with imageSize := v }
  | .roBase, v => { x with roBase := v }
  | .roMax, v => { x with roMax := v }
  | .rxBase, v => { x with rxBase := v }
  | .rxMax, v => { x with rxMax := v }
  | .fuseMap, v => { x with fuseMap := v }
  | .infoMap, v => { x with infoMap := v }
  | .epoch, v => { x with epoch := v }
  | .major, v => { x with major := v }
  | .minor, v => { x with minor := v }
  | .timestamp, v => { x with timestamp := v }
  | .p4cl, v => { x with p4cl := v }
  | .applySec, v => { x with applySec := v }
  | .config1, v => { x with config1 := v }
  | .errResponse, v => { x with errResponse := v }
  | .expectResponse, v => { x with expectResponse := v }
  | .trailerWords, v => { x with trailerWords := v }
  | .pad, v => { x with pad := v }
  | .swapMark, v => { x with swapMark := v }
  | .storedProductFamily, v => { x with storedProductFamily := v }
  | .storedBoardId, v => { x with storedBoardId := v }
  | .deviceId0, v => { x with deviceId0 := v }
  | .deviceId1, v => { x with deviceId1 := v }
  | .fusesCheck, v => { x with fusesCheck := v }
  | .infoCheck, v => { x with infoCheck := v }

-- The bytes of a header: its fields, one after the other.
def encode (x : Header) : Bytes := Field.all.flatMap fun field => field.shape.encode (x.get field)

-- Reads the value of a field from the bytes of a header.
def read (bs : Bytes) (field : Field) : field.shape.Value := field.shape.readAt bs field.offset

-- The header with the given bytes; bytes that are missing count as zero.
def decode (bs : Bytes) : Header where
  magic := read bs .magic
  signature := read bs .signature
  imageCheck := read bs .imageCheck
  tag := read bs .tag
  keyId := read bs .keyId
  key := read bs .key
  imageSize := read bs .imageSize
  roBase := read bs .roBase
  roMax := read bs .roMax
  rxBase := read bs .rxBase
  rxMax := read bs .rxMax
  fuseMap := read bs .fuseMap
  infoMap := read bs .infoMap
  epoch := read bs .epoch
  major := read bs .major
  minor := read bs .minor
  timestamp := read bs .timestamp
  p4cl := read bs .p4cl
  applySec := read bs .applySec
  config1 := read bs .config1
  errResponse := read bs .errResponse
  expectResponse := read bs .expectResponse
  trailerWords := read bs .trailerWords
  pad := read bs .pad
  swapMark := read bs .swapMark
  storedProductFamily := read bs .storedProductFamily
  storedBoardId := read bs .storedBoardId
  deviceId0 := read bs .deviceId0
  deviceId1 := read bs .deviceId1
  fusesCheck := read bs .fusesCheck
  infoCheck := read bs .infoCheck

end Header

end SignedFlash
