import SignedFlash.Session
import SignedFlash.Proofs.Words
import Mathlib.Data.Finset.Card
import Mathlib.Data.List.Nodup
import Mathlib.Data.Nat.ModEq

/-!
# What folding leaves

A walk in steps of five comes around only after it has visited every place once, from whichever
place it starts. So folding changes every word once, each by itself, and where it starts does not
show. The lift of a legacy encoding loses nothing either.
-/

namespace SignedFlash

/-! ## Walks -/

theorem length_walk (n start : Nat) : (walk n start).length = n := by
  rw [walk, List.length_map, List.length_range]

-- No place is visited twice, if the step and the number of places have no common divisor.
theorem nodup_walk {n : Nat} (hn : Nat.gcd n 5 = 1) (start : Nat) : (walk n start).Nodup := by
  apply List.Nodup.map_on _ List.nodup_range
  intro j hj k hk h
  rw [List.mem_range] at hj hk
  -- two steps to the same place differ by a multiple of `n`, so both are the same step
  have hfive : 5 * j ≡ 5 * k [MOD n] := Nat.ModEq.add_left_cancel' start h
  have hmod : j ≡ k [MOD n] := Nat.ModEq.cancel_left_of_coprime hn hfive
  rwa [Nat.ModEq, Nat.mod_eq_of_lt hj, Nat.mod_eq_of_lt hk] at hmod

theorem lt_of_mem_walk {n start i : Nat} (h : i ∈ walk n start) : i < n := by
  obtain ⟨k, hk, rfl⟩ := List.mem_map.mp h
  exact Nat.mod_lt _ (by rw [List.mem_range] at hk; omega)

-- Every place is visited.
theorem mem_walk {n : Nat} (hn : Nat.gcd n 5 = 1) (start : Nat) {i : Nat} :
    i ∈ walk n start ↔ i < n := by
  refine ⟨lt_of_mem_walk, fun h => ?_⟩
  -- as many places as there are, all different
  have hall : (walk n start).toFinset = Finset.range n := by
    apply Finset.eq_of_subset_of_card_le
    · intro j hj
      exact Finset.mem_range.mpr (lt_of_mem_walk (List.mem_toFinset.mp hj))
    · rw [Finset.card_range, List.toFinset_card_of_nodup (nodup_walk hn start), length_walk]
  rw [← List.mem_toFinset, hall]
  exact Finset.mem_range.mpr h

-- Changing different words one after the other changes each of them once.
theorem Words.getD_foldl_modify {n : Nat} (f : Nat → Word → Word) {places : List Nat}
    (hplaces : places.Nodup) (ws : Words n) {j : Nat} (h : j < n) :
    (places.foldl (fun b i => b.modify i (f i)) ws).getD j =
      if j ∈ places then f j (ws.getD j) else ws.getD j := by
  -- on the places; the words change at each, so they are not fixed
  induction places generalizing ws with
  | nil => rfl
  | cons i places ih =>
    obtain ⟨hi, hrest⟩ := List.nodup_cons.mp hplaces
    rw [List.foldl_cons, ih hrest, Words.getD_modify _ _ h]
    by_cases hij : i = j
    · subst hij
      rw [if_neg hi, if_pos rfl, if_pos List.mem_cons_self]
    · have hmem : j ∈ i :: places ↔ j ∈ places := by
        rw [List.mem_cons]
        exact or_iff_right (Ne.symm hij)
      simp only [if_neg hij, hmem]

/-! ## The two folds -/

theorem getD_foldPlaces (buf : Number) (start : Nat) {i : Nat} (h : i < 96) :
    (foldPlaces buf start).getD i = buf.getD i ^^^ (0x1000 + UInt32.ofNat i) := by
  unfold foldPlaces
  rw [Words.getD_foldl_modify _ (nodup_walk (by decide) start) _ h,
    if_pos ((mem_walk (by decide) start).mpr h)]

/-- What folding makes of digest word `i`. -/
def foldedWord (final : Digest) (skipHash : Bool) (i : Nat) (w : Word) : Word :=
  if skipHash then 0x1010
  else w ^^^ (Word.swapBytes (final.getD (7 - i)) ^^^ (UInt32.ofNat i + 0x10))

theorem foldDigest_eq_foldl_modify (buf : Number) (final : Digest) (skipHash : Bool)
    (start : Nat) :
    foldDigest buf final skipHash start =
      (walk 8 start).foldl (fun b i => b.modify i (foldedWord final skipHash i)) buf := by
  unfold foldDigest foldedWord
  cases skipHash with
  | false => rfl
  | true =>
    -- overwriting a word is changing it by a constant function
    congr 1
    funext b i
    apply Words.ext_getD
    intro j hj
    simp only [if_true, Words.getD_set _ _ hj, Words.getD_modify _ _ hj]

theorem getD_foldDigest (buf : Number) (final : Digest) (skipHash : Bool) (start : Nat) {i : Nat}
    (h : i < 96) :
    (foldDigest buf final skipHash start).getD i =
      if i < 8 then foldedWord final skipHash i (buf.getD i) else buf.getD i := by
  rw [foldDigest_eq_foldl_modify,
    Words.getD_foldl_modify _ (nodup_walk (by decide) start) _ h]
  simp only [mem_walk (show Nat.gcd 8 5 = 1 by decide) start]

/-! ## The lift -/

theorem getD_liftLegacy (buf : Number) {i : Nat} (h : i < 96) :
    (liftLegacy buf).getD i =
      if i < 63 then buf.getD i
      else if i = 63 then buf.getD 63 ^^^ 0x1ffff ^^^ 0xffffffff
      else if i < 95 then buf.getD i ^^^ 0xffffffff
      else buf.getD 95 ^^^ buf.getD 63 := by
  unfold liftLegacy
  simp only [Words.getD_mapIdx _ _ h, Words.getD_modify _ _ h]
  -- copying comes before inverting, so that word 95 gets word 63 as it was
  obtain hlow | rfl | hhigh | rfl : i < 63 ∨ i = 63 ∨ (63 < i ∧ i < 95) ∨ i = 95 := by omega
  · rw [if_neg (by omega), if_neg (by omega), if_neg (by omega), if_pos hlow]
  · rfl
  · rw [if_pos (by omega), if_neg (by omega), if_neg (by omega), if_neg (by omega),
      if_neg (by omega), if_pos hhigh.2]
  · rfl

-- The lift can be undone: word 63 is recovered first, and with it word 95.
theorem liftLegacy_injective {a b : Number} (h : liftLegacy a = liftLegacy b) : a = b := by
  have hword {i : Nat} (hi : i < 96) : (liftLegacy a).getD i = (liftLegacy b).getD i := by rw [h]
  have hmiddle : a.getD 63 = b.getD 63 := by
    have h63 := hword (show 63 < 96 by decide)
    rw [getD_liftLegacy a (by decide), getD_liftLegacy b (by decide)] at h63
    exact (UInt32.xor_left_inj _).mp ((UInt32.xor_left_inj _).mp h63)
  apply Words.ext_getD
  intro i hi
  have hi' := hword hi
  rw [getD_liftLegacy a hi, getD_liftLegacy b hi] at hi'
  obtain hlow | rfl | hhigh | rfl : i < 63 ∨ i = 63 ∨ (63 < i ∧ i < 95) ∨ i = 95 := by omega
  · rwa [if_pos hlow, if_pos hlow] at hi'
  · exact hmiddle
  · rw [if_neg (by omega), if_neg (by omega), if_pos hhigh.2, if_neg (by omega),
      if_neg (by omega), if_pos hhigh.2] at hi'
    exact (UInt32.xor_left_inj _).mp hi'
  · rw [hmiddle] at hi'
    exact (UInt32.xor_left_inj _).mp hi'

end SignedFlash
