import SignedFlash.Candidate

/-!
# Sites

A place in a flash buffer: an offset, together with all bytes from there on. Going from site to site
takes time only for the bytes between them, wherever in the buffer they are.
-/

namespace SignedFlash

-- An offset of a buffer and the bytes from there on.
@[ext] structure Site where
  offset : Nat
  bytes : Bytes
  deriving DecidableEq

namespace Site

def of (buf : Bytes) (offset : Nat) : Site := ⟨offset, buf.drop offset⟩

def moveTo (site : Site) (offset : Nat) : Site := ⟨offset, site.bytes.drop (offset - site.offset)⟩

def candidate (site : Site) : Except Fault Candidate := Candidate.ofFront site.bytes

-- Whether there is a header or manifest at a site.
def isCandidate (site : Site) : Bool := site.candidate.isOk

/-- Going to a later site of a buffer leads to the site at that offset. -/
theorem moveTo_of {buf : Bytes} {offset later : Nat} (h : offset ≤ later) :
    (of buf offset).moveTo later = of buf later := by
  simp [moveTo, of, List.drop_drop, show offset + (later - offset) = later by omega]

-- The structure at a site of a buffer is the one at its offset.
theorem candidate_of (buf : Bytes) (offset : Nat) :
    (of buf offset).candidate = Candidate.parse buf offset := rfl

end Site

end SignedFlash
