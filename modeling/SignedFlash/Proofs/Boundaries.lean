import SignedFlash.Scan
import Mathlib.Algebra.Group.Nat.Defs

/-!
# The boundaries of a scan

No buffer is so long that rounding up to the next boundary stops before its end. So a scan visits
exactly the boundaries from the start offset to the end, each once and in order.
-/

namespace SignedFlash

/-- The greatest length of a buffer. -/
def maxLength : Nat := 2 ^ 63 - 1

-- Every offset inside a buffer, and the one after it, is an offset.
theorem maxLength_lt_maxOffset : maxLength < maxOffset := by decide

/-- The number of boundaries below an offset. -/
def boundaryCount (offset : Nat) : Nat := (offset + (alignment - 1)) / alignment

/-- The boundaries from a start offset on that lie below a stop offset. -/
def boundaries (start stop : Nat) : List Nat :=
  (List.range' (boundaryCount start) (boundaryCount stop - boundaryCount start)).map
    (alignment * ·)

theorem boundaryCount_le_iff {offset k : Nat} :
    boundaryCount offset ≤ k ↔ offset ≤ alignment * k := by
  unfold boundaryCount alignment
  omega

theorem mem_boundaries_iff {start stop offset : Nat} :
    offset ∈ boundaries start stop ↔ alignment ∣ offset ∧ start ≤ offset ∧ offset < stop := by
  have hrange (k : Nat) :
      k ∈ List.range' (boundaryCount start) (boundaryCount stop - boundaryCount start) ↔
        start ≤ alignment * k ∧ alignment * k < stop := by
    have hstart : boundaryCount start ≤ k ↔ start ≤ alignment * k := boundaryCount_le_iff
    have hstop : boundaryCount stop ≤ k ↔ stop ≤ alignment * k := boundaryCount_le_iff
    rw [List.mem_range'_1]
    omega
  unfold boundaries
  rw [List.mem_map]
  constructor
  · rintro ⟨k, hk, rfl⟩
    exact ⟨Nat.dvd_mul_right _ _, (hrange k).mp hk⟩
  · rintro ⟨⟨k, rfl⟩, hbounds⟩
    exact ⟨k, (hrange k).mpr hbounds, rfl⟩

theorem boundaries_sorted (start stop : Nat) : (boundaries start stop).Pairwise (· < ·) := by
  have hpos : 0 < alignment := by decide
  rw [boundaries, List.pairwise_map]
  apply List.Pairwise.imp _ List.pairwise_lt_range'
  exact fun hlt => Nat.mul_lt_mul_of_pos_left hlt hpos

-- The first of a sorted list that satisfies a condition is the least.
theorem find?_sorted_eq_some_iff {l : List Nat} (hl : l.Pairwise (· < ·)) {p : Nat → Bool}
    {n : Nat} : l.find? p = some n ↔ n ∈ l ∧ p n = true ∧ ∀ m ∈ l, m < n → p m = false := by
  rw [List.find?_eq_some_iff_append]
  constructor
  · rintro ⟨hn, before, behind, rfl, hbefore⟩
    refine ⟨by simp, hn, fun m hm hlt => ?_⟩
    have hbehind : ∀ k ∈ behind, n < k :=
      (List.pairwise_cons.mp (List.pairwise_append.mp hl).2.1).1
    rcases List.mem_append.mp hm with hm | hm
    · simpa using hbefore m hm
    · rcases List.mem_cons.mp hm with rfl | hm
      · exact absurd hlt (Nat.lt_irrefl _)
      · exact absurd hlt (Nat.not_lt.mpr (Nat.le_of_lt (hbehind m hm)))
  · rintro ⟨hmem, hn, hleast⟩
    obtain ⟨before, behind, rfl⟩ := List.append_of_mem hmem
    refine ⟨hn, before, behind, rfl, fun m hm => ?_⟩
    have hlt : m < n := (List.pairwise_append.mp hl).2.2 m hm n List.mem_cons_self
    simpa using hleast m (List.mem_append_left _ hm) hlt

theorem roundUp_eq (offset : Nat) :
    roundUp offset = alignment * min (boundaryCount offset) (2 ^ 53 - 1) := by
  unfold roundUp boundaryCount alignment maxOffset
  omega

theorem roundUp_boundary_succ {k : Nat} (h : k < 2 ^ 53 - 1) :
    roundUp (alignment * k + 1) = alignment * (k + 1) := by
  have hcount : boundaryCount (alignment * k + 1) = k + 1 := by
    unfold boundaryCount alignment
    omega
  rw [roundUp_eq, hcount, Nat.min_eq_left h]

theorem sitesFrom_of (buf : Bytes) (offset : Nat) :
    sitesFrom (Site.of buf offset) =
      if buf.length ≤ offset then []
      else if offset < roundUp (offset + 1) then
        Site.of buf offset :: sitesFrom (Site.of buf (roundUp (offset + 1)))
      else [Site.of buf offset] := by
  have hempty : (Site.of buf offset).bytes.isEmpty ↔ buf.length ≤ offset := by
    rw [List.isEmpty_iff, Site.of, List.drop_eq_nil_iff]
  rw [sitesFrom]
  simp only [hempty]
  split
  · rfl
  · change (if offset < roundUp (offset + 1) then _ else _) = _
    split
    · rename_i hlt
      rw [← Site.moveTo_of (Nat.le_of_lt hlt)]
      rfl
    · rfl

theorem sitesFrom_boundary {buf : Bytes} (hcount : boundaryCount buf.length < 2 ^ 53) (k : Nat) :
    sitesFrom (Site.of buf (alignment * k)) =
      (List.range' k (boundaryCount buf.length - k)).map fun k => Site.of buf (alignment * k) := by
  -- on the number of boundaries left
  generalize hn : boundaryCount buf.length - k = n
  induction n generalizing k with
  | zero =>
    rw [sitesFrom_of, if_pos (boundaryCount_le_iff.mp (Nat.le_of_sub_eq_zero hn))]
    rfl
  | succ n ih =>
    have hk : ¬buf.length ≤ alignment * k := by
      rw [← boundaryCount_le_iff]
      omega
    have hstep : alignment * k < alignment * (k + 1) := by
      unfold alignment
      omega
    rw [sitesFrom_of, if_neg hk, roundUp_boundary_succ (by omega), if_pos hstep,
      ih (k + 1) (by omega)]
    rfl

/-- An image that ends at the next boundary is followed by the sites after it. -/
theorem sitesFrom_append {first rest : Bytes} (hfirst : first.length = alignment) {k : Nat}
    (hk : k < 2 ^ 53 - 1) :
    sitesFrom ⟨alignment * k, first ++ rest⟩ =
      ⟨alignment * k, first ++ rest⟩ :: sitesFrom ⟨alignment * (k + 1), rest⟩ := by
  have hnext := roundUp_boundary_succ hk
  have hpos : 0 < alignment := by decide
  have hstep : alignment * (k + 1) = alignment * k + alignment := Nat.mul_succ _ _
  have hlt : alignment * k < alignment * (k + 1) := by omega
  have hempty : (first ++ rest).isEmpty = false := by
    rw [List.isEmpty_eq_false_iff_exists_mem, ← List.length_pos_iff_exists_mem, List.length_append]
    omega
  rw [sitesFrom, hempty, if_neg Bool.false_ne_true, hnext, if_pos hlt, Site.moveTo, hstep,
    Nat.add_sub_cancel_left, ← hfirst, List.drop_left]

-- An image that ends with the buffer.
theorem sitesFrom_image {image : Bytes} (himage : image.length = alignment) {k : Nat}
    (hk : k < 2 ^ 53 - 1) : sitesFrom ⟨alignment * k, image⟩ = [⟨alignment * k, image⟩] := by
  have hempty : sitesFrom ⟨alignment * (k + 1), []⟩ = [] := by
    rw [sitesFrom]
    rfl
  rw [← List.append_nil image, sitesFrom_append himage hk, hempty]

theorem sites_zero (buf : Bytes) : sites buf 0 = sitesFrom ⟨alignment * 0, buf⟩ := rfl

-- A scan of two images finds one after the other.
theorem sites_pair {first second : Bytes} (hfirst : first.length = alignment)
    (hsecond : second.length = alignment) :
    sites (first ++ second) 0 = [⟨0, first ++ second⟩, ⟨alignment, second⟩] := by
  rw [sites_zero, sitesFrom_append hfirst (by decide), sitesFrom_image hsecond (by decide)]
  rfl

/-- A scan visits the boundaries from the start offset to the end of the buffer. -/
theorem sites_eq {buf : Bytes} (hlength : buf.length ≤ maxLength) (start : Nat) :
    sites buf start = (boundaries start buf.length).map (Site.of buf) := by
  have hbuf : boundaryCount buf.length < 2 ^ 53 - 1 := by
    unfold boundaryCount alignment
    unfold maxLength at hlength
    omega
  unfold sites boundaries
  rw [roundUp_eq, sitesFrom_boundary (by omega), List.map_map]
  by_cases h : boundaryCount start ≤ 2 ^ 53 - 1
  · rw [Nat.min_eq_left h]
    rfl
  · -- rounding up stops after the end of the buffer
    have hstop : boundaryCount buf.length - min (boundaryCount start) (2 ^ 53 - 1) = 0 := by omega
    have hcount : boundaryCount buf.length - boundaryCount start = 0 := by omega
    rw [hstop, hcount]
    rfl

theorem mem_sites_iff {buf : Bytes} (hlength : buf.length ≤ maxLength) {start : Nat}
    {site : Site} :
    site ∈ sites buf start ↔
      ∃ offset, alignment ∣ offset ∧ start ≤ offset ∧ offset < buf.length ∧
        site = Site.of buf offset := by
  rw [sites_eq hlength, List.mem_map]
  refine exists_congr fun offset => ?_
  rw [mem_boundaries_iff, and_assoc, and_assoc, eq_comm]

end SignedFlash
