import SignedFlash.Rsa.Encoding
import SignedFlash.Proofs.Folding

/-!
# The words of an encoded digest

The eight low words of an encoded digest are those of the digest, in the opposite order and each
with its bytes swapped. All others depend on nothing but the kind of key, and the lift takes those
of a legacy key to those of a long one.
-/

namespace SignedFlash

theorem wordsOfBytes_reverse_append (ws : List Word) (rest : Bytes) :
    wordsOfBytes ((bytesOfWords ws).reverse ++ rest) =
      (ws.map Word.swapBytes).reverse ++ wordsOfBytes rest := by
  -- the first word comes last, in front of what follows
  induction ws generalizing rest with
  | nil => rfl
  | cons w ws ih =>
    have hword : wordsOfBytes (w.bytes.reverse ++ rest) =
        Word.swapBytes w :: wordsOfBytes rest := by
      rw [← Word.ofBytes_reverse]
      rfl
    have hbytes : (bytesOfWords (w :: ws)).reverse ++ rest =
        (bytesOfWords ws).reverse ++ (w.bytes.reverse ++ rest) := by
      rw [bytesOfWords, List.flatMap_cons, List.reverse_append, List.append_assoc]
      rfl
    rw [hbytes, ih, hword, List.map_cons, List.reverse_cons, List.append_assoc]
    rfl

/-- The words above the digest in an encoded message, lowest first. -/
def encodingWords (legacy : Bool) : List Word :=
  let filling := List.replicate ((if legacy then 256 else 384) - 54) 0xff
  wordsOfBytes ([0x00, 0x01] ++ filling ++ [0x00] ++ digestInfo).reverse

theorem encodeDigest_eq (digest : Digest) (legacy : Bool) :
    encodeDigest digest legacy =
      .ofList 96 ((digest.toList.map Word.swapBytes).reverse ++ encodingWords legacy) := by
  unfold encodeDigest encodedMessage encodingWords Words.bytes
  dsimp only
  rw [List.reverse_append, wordsOfBytes_reverse_append]

theorem getD_encodeDigest_of_lt (digest : Digest) (legacy : Bool) {i : Nat} (h : i < 8) :
    (encodeDigest digest legacy).getD i = Word.swapBytes (digest.getD (7 - i)) := by
  have hlen : (digest.toList.map Word.swapBytes).reverse.length = 8 := by
    rw [List.length_reverse, List.length_map, digest.length_toList]
  rw [encodeDigest_eq, Words.getD_ofList _ (by omega), List.getD_append _ _ _ _ (by omega),
    List.getD_eq_getElem _ _ (by omega), List.getElem_reverse, List.getElem_map,
    Words.getD_eq_get _ (by omega), List.get_eq_getElem]
  simp only [List.length_map, digest.length_toList, show 8 - 1 - i = 7 - i by omega]

theorem getD_encodeDigest_of_ge (digest : Digest) (legacy : Bool) {i : Nat} (h : 8 ≤ i)
    (h' : i < 96) :
    (encodeDigest digest legacy).getD i = (encodingWords legacy).getD (i - 8) 0 := by
  have hlen : (digest.toList.map Word.swapBytes).reverse.length = 8 := by
    rw [List.length_reverse, List.length_map, digest.length_toList]
  rw [encodeDigest_eq, Words.getD_ofList _ h', List.getD_append_right _ _ _ _ (by omega), hlen]

-- The lift turns the encoding for a legacy key into that for a long key.
theorem liftLegacy_encodeDigest (digest : Digest) :
    liftLegacy (encodeDigest digest true) = encodeDigest digest false := by
  -- the words above the digest are constants: looking at one digest is enough
  have hzero : liftLegacy (encodeDigest (.zero 8) true) = encodeDigest (.zero 8) false := by
    decide +kernel
  have hconst (legacy : Bool) {i : Nat} (h : 8 ≤ i) (h' : i < 96) :
      (encodeDigest digest legacy).getD i = (encodeDigest (.zero 8) legacy).getD i := by
    rw [getD_encodeDigest_of_ge _ _ h h', getD_encodeDigest_of_ge _ _ h h']
  apply Words.ext_getD
  intro i hi
  by_cases hlow : i < 8
  · rw [getD_liftLegacy _ hi, if_pos (by omega), getD_encodeDigest_of_lt _ _ hlow,
      getD_encodeDigest_of_lt _ _ hlow]
  · rw [hconst false (by omega) hi, ← hzero, getD_liftLegacy _ hi, getD_liftLegacy _ hi,
      hconst true (by omega) hi, hconst true (show 8 ≤ 63 by decide) (by decide),
      hconst true (show 8 ≤ 95 by decide) (by decide)]

/-- Every number agrees with the encoding of some digest on the eight low words. -/
def digestOfLowWords (buf : Number) : Digest :=
  ⟨(List.range 8).map fun i => Word.swapBytes (buf.getD (7 - i)), by simp⟩

theorem getD_encodeDigest_digestOfLowWords (buf : Number) (legacy : Bool) {i : Nat} (h : i < 8) :
    (encodeDigest (digestOfLowWords buf) legacy).getD i = buf.getD i := by
  have hword : (digestOfLowWords buf).getD (7 - i) = Word.swapBytes (buf.getD (7 - (7 - i))) := by
    rw [Words.getD_eq_get _ (by omega)]
    simp only [digestOfLowWords, List.get_eq_getElem, List.getElem_map, List.getElem_range]
  rw [getD_encodeDigest_of_lt _ _ h, hword, Word.swapBytes_swapBytes,
    show 7 - (7 - i) = i by omega]

end SignedFlash
