import SignedFlash.BoardId
import SignedFlash.Words

/-!
# Shapes of stored fields

The kinds of value that headers and manifests are made of, and how each is laid out in flash:
lowest byte first, words in order.
-/

namespace SignedFlash

inductive Shape where
  | half
  | word
  | double
  | words (count : Nat)
  | boardId
  deriving DecidableEq, Repr

namespace Shape

abbrev Value : Shape → Type
  | .half => UInt16
  | .word => Word
  | .double => UInt64
  | .words n => Words n
  | .boardId => BoardId

def size : Shape → Nat
  | .half => 2
  | .word => 4
  | .double => 8
  | .words n => 4 * n
  | .boardId => 12

def encode : (s : Shape) → s.Value → Bytes
  | .half, v => [v.toUInt8, (v >>> 8).toUInt8]
  | .word, v => Word.bytes v
  | .double, v => bytesOfWords [v.toUInt32, (v >>> 32).toUInt32]
  | .words _, v => v.bytes
  | .boardId, v => bytesOfWords [v.id, v.mask, v.flags]

-- The value with the given bytes; bytes that are missing count as zero.
def decode : (s : Shape) → Bytes → s.Value
  | .half, bs => (bs.getD 0 0).toUInt16 ||| ((bs.getD 1 0).toUInt16 <<< 8)
  | .word, bs => (wordsOfBytes bs).getD 0 0
  | .double, bs =>
    let ws := wordsOfBytes bs
    (ws.getD 0 0).toUInt64 ||| ((ws.getD 1 0).toUInt64 <<< 32)
  | .words n, bs => Words.ofList n (wordsOfBytes bs)
  | .boardId, bs =>
    let ws := wordsOfBytes bs
    ⟨ws.getD 0 0, ws.getD 1 0, ws.getD 2 0⟩

def readAt (s : Shape) (bs : Bytes) (offset : Nat) : s.Value :=
  s.decode ((bs.drop offset).take s.size)

end Shape

end SignedFlash
