import SignedFlash.Verify

/-!
# Scanning flash

Images start on 2 KB boundaries. A scan verifies the candidate at every boundary from a start offset
to the end of the buffer, in order, in one session. Offsets are addresses of 64 bits: rounding up
stops at the greatest of them, so that a start next to it finds no boundary.
-/

namespace SignedFlash

-- The distance between places where an image can start.
def alignment : Nat := 2048

def maxOffset : Nat := 0xffffffffffffffff

-- The next boundary from an offset on; above the last boundary, the one before.
def roundUp (offset : Nat) : Nat :=
  min (offset + (alignment - 1)) maxOffset / alignment * alignment

/-- The sites at boundaries that a search visits, from one of them on: each is at the next boundary
after the one before, until the buffer ends. -/
def sitesFrom (site : Site) : List Site :=
  if site.bytes.isEmpty then []
  else if site.offset < roundUp (site.offset + 1) then
    site :: sitesFrom (site.moveTo (roundUp (site.offset + 1)))
  else [site]
termination_by site.bytes.length
decreasing_by
  have h : site.bytes.length ≠ 0 := by simpa using ‹¬site.bytes.isEmpty = true›
  simp only [Site.moveTo, List.length_drop]
  omega

-- The sites at the boundaries of a buffer from a start offset on.
def sites (buf : Bytes) (start : Nat) : List Site := sitesFrom (Site.of buf (roundUp start))

/-- A site that a search visits holds all bytes of the buffer from its offset on. -/
theorem eq_of_mem_sitesFrom {buf : Bytes} {offset : Nat} {site : Site}
    (h : site ∈ sitesFrom (Site.of buf offset)) : site = Site.of buf site.offset := by
  generalize hs : Site.of buf offset = first at h
  fun_induction sitesFrom first generalizing offset with
  | case1 => simp at h
  | case2 first _ hlt ih =>
    subst hs
    rcases List.mem_cons.mp h with rfl | h
    · rfl
    · exact ih (Site.moveTo_of (Nat.le_of_lt hlt)).symm h
  | case3 =>
    subst hs
    rw [List.mem_singleton.mp h]
    rfl

theorem eq_of_mem_sites {buf : Bytes} {start : Nat} {site : Site} (h : site ∈ sites buf start) :
    site = Site.of buf site.offset := eq_of_mem_sitesFrom h

-- The sites from a start offset on where there is a header or manifest.
def candidates (buf : Bytes) (start : Nat) : List Site := (sites buf start).filter Site.isCandidate

-- The first boundary from an offset on where there is a header or manifest.
def nextCandidate? (buf : Bytes) (offset : Nat) : Option Nat :=
  ((sites buf offset).find? Site.isCandidate).map Site.offset

structure ScanResult where
  reports : List Report
  session : Session
  log : List LogLine

namespace Verifier

-- Verifies the candidates at the given sites in one session.
def verifyAll (v : Verifier) (session : Session) : List Site → ScanResult
  | [] => ⟨[], session, []⟩
  | site :: sites =>
    let first := v.verifySite session site
    let summary : List LogLine :=
      if first.report.isCandidate then [⟨.debug, first.report.describe⟩] else []
    let rest := v.verifyAll first.session sites
    ⟨first.report :: rest.reports, rest.session, first.log ++ summary ++ rest.log⟩

-- Verifies the candidate at every boundary of a buffer from a start offset on.
def scan (v : Verifier) (session : Session) (buf : Bytes) (start : Nat) : ScanResult :=
  v.verifyAll session (sites buf start)

end Verifier

end SignedFlash
