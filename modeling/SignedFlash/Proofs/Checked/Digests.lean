import SignedFlash.Proofs.Checked.Basic
import SignedFlash.Verify
import Mathlib.Data.Nat.Bitwise

/-!
# Checked digests

The digests of an image with all their indices. The maps of a header have a bit for each word of a
bank, and neither more nor fewer, so that no map selects a word that is not there. That a digest has
eight words is known from its type.
-/

namespace SignedFlash

namespace Checked

/-! ## Selected words -/

-- Whether a map selects word `i`.
def selects (selection : Words 4) (i : Nat) : Checked Bool := do
  return ((← read selection (i / 32)) &&& (← shiftWord 1 (i % 32))) != 0

/-- The words of a bank that a map selects, each changed, and a constant in place of all others. -/
def senseBank (bank : Bank) (selection : Words 4) (change : Word → Word) (ignore : Word) :
    Checked Bank := do
  let words ← (List.range 128).mapM fun i => do
    if ← selects selection i then return change (← read bank i) else return ignore
  return .ofList 128 words

-- A bit is set if and only if masking out all others leaves something.
theorem and_shiftLeft_ne_zero (w : Word) {i : Nat} (hi : i < 32) :
    ((w &&& 1 <<< UInt32.ofNat i) != 0) = Word.testBit w i := by
  have hvalue : (w &&& 1 <<< UInt32.ofNat i).toNat = (Word.testBit w i).toNat * 2 ^ i := by
    rw [UInt32.toNat_and, Word.toNat_one_shiftLeft hi, Nat.and_two_pow, Word.testBit]
  have hpos : 0 < 2 ^ i := Nat.two_pow_pos i
  cases hbit : Word.testBit w i with
  | false =>
    rw [hbit, Bool.toNat_false, Nat.zero_mul] at hvalue
    rw [bne_eq_false_iff_eq]
    exact UInt32.toNat_inj.mp hvalue
  | true =>
    rw [hbit, Bool.toNat_true, Nat.one_mul] at hvalue
    rw [bne_iff_ne]
    intro hzero
    rw [hzero] at hvalue
    exact absurd hvalue (Nat.ne_of_lt hpos)

theorem selects_eq_ok (selection : Words 4) {i : Nat} (hi : i < 128) :
    selects selection i = .ok (Selection.selects selection i) := by
  rw [selects, read_of_lt _ (by omega), ok_bind, shiftWord_of_lt _ (by omega), ok_bind, pure_eq_ok,
    and_shiftLeft_ne_zero _ (by omega), Selection.selects]

theorem senseBank_eq_ok (bank : Bank) (selection : Words 4) (change : Word → Word)
    (ignore : Word) :
    senseBank bank selection change ignore =
      .ok (bank.mapIdx fun i w => if Selection.selects selection i then change w else ignore) := by
  have hword : ∀ i ∈ List.range 128, (do
      if ← selects selection i then return change (← read bank i) else return ignore) =
        (.ok (if Selection.selects selection i then change (bank.getD i) else ignore) :
          Checked Word) := by
    intro i hi
    rw [List.mem_range] at hi
    rw [selects_eq_ok _ hi, ok_bind, read_of_lt _ hi, ok_bind, pure_eq_ok, pure_eq_ok,
      apply_ite Except.ok]
  rw [senseBank, mapM_eq_ok hword, ok_bind, pure_eq_ok]
  congr 1
  apply Words.ext_getD
  intro i hi
  rw [Words.getD_ofList _ hi, Words.getD_mapIdx _ _ hi,
    List.getD_eq_getElem _ _ (by simpa using hi), List.getElem_map, List.getElem_range]

/-! ## Banks -/

def writeAll (bank : Bank) (words : List (Nat × Word)) : Checked Bank :=
  words.foldlM (fun bank word => write bank word.1 word.2) bank

def fuseBank (h : Header) : Checked Bank :=
  let blank : Bank := .replicate 128 FuseBank.unprogrammed
  match h.family? with
  | some .haven =>
    writeAll blank [(0x06, h.deviceId0), (0x07, h.deviceId1), (0x43, 0x55555555),
      (0x47, 0x55555502), (0x7d, 0x55555540), (0x55, 0x55555137)]
  | some .citadel => writeAll blank [(0x14, h.deviceId0), (0x18, h.deviceId1)]
  | some .dauntless => writeAll blank [(0x08, 0x55555542), (0x35, 0x55555550), (0x3e, 0x55555540)]
  | none => .ok blank

-- Writes a device id that is set to the fuse word for it.
def lockNode (bank : Bank) (id : Word) : Checked Bank :=
  if Header.deviceIdSet id then write bank FuseBank.nodeLockIndex id else return bank

def senseFuses (bank : Bank) (h : Header) : Checked Bank := do
  let selected ← senseBank bank h.fuseMap id h.sensingFamily.fuseIgnore
  lockNode (← lockNode selected h.deviceId0) h.deviceId1

def senseInfo (bank : Bank) (h : Header) : Checked Bank :=
  let ignore := h.sensingFamily.infoIgnore
  senseBank bank h.infoMap (ignore ^^^ ·) ignore

theorem writeAll_eq_ok (bank : Bank) {words : List (Nat × Word)}
    (h : ∀ word ∈ words, word.1 < 128) :
    writeAll bank words = .ok (words.foldl (fun bank word => bank.set word.1 word.2) bank) := by
  induction words generalizing bank with
  | nil => rfl
  | cons word words ih =>
    rw [writeAll, List.foldlM_cons, write_of_lt _ _ (h word List.mem_cons_self), ok_bind,
      List.foldl_cons]
    exact ih _ fun word hword => h word (List.mem_cons_of_mem _ hword)

theorem fuseBank_eq_ok (h : Header) : fuseBank h = .ok (FuseBank.ofHeader h) := by
  unfold fuseBank FuseBank.ofHeader
  cases h.family? with
  | none => rfl
  | some family =>
    cases family with
    | haven =>
      -- word 0x43 is written what it holds
      dsimp only
      rw [writeAll_eq_ok _ (by simp)]
      rfl
    | citadel =>
      dsimp only
      rw [writeAll_eq_ok _ (by simp)]
      rfl
    | dauntless =>
      dsimp only
      rw [writeAll_eq_ok _ (by simp)]
      rfl

theorem lockNode_eq_ok (bank : Bank) (id : Word) :
    lockNode bank id =
      .ok (if Header.deviceIdSet id then bank.set FuseBank.nodeLockIndex id else bank) := by
  rw [lockNode, write_of_lt _ _ (by decide), pure_eq_ok, apply_ite Except.ok]

theorem senseFuses_eq_ok (bank : Bank) (h : Header) :
    senseFuses bank h = .ok (FuseBank.sense bank h) := by
  rw [senseFuses, senseBank_eq_ok, ok_bind, lockNode_eq_ok, ok_bind, lockNode_eq_ok]
  rfl

theorem senseInfo_eq_ok (bank : Bank) (h : Header) :
    senseInfo bank h = .ok (InfoBank.sense bank h) :=
  senseBank_eq_ok bank h.infoMap _ _

/-! ## Digests -/

def compute (info : Bank) (h : Header) (image : Bytes) : Checked (Except Fault HashChain) :=
  if Header.hashedFrom ≤ h.imageSize.toNat ∧ h.imageSize.toNat ≤ image.length then do
    let signed := (image.take h.imageSize.toNat).drop Header.hashedFrom
    let fuses ← senseFuses (← fuseBank h) h
    let info ← senseInfo info h
    return .ok (HashChain.ofDigests (Sha256.digest signed) (Sha256.digestWords fuses)
      (Sha256.digestWords info))
  else
    return .error .imageOutOfBounds

def heads (hashes : HashChain) : Checked HashHeads :=
  return ⟨← read hashes.image 0, ← read hashes.fuses 0, ← read hashes.info 0⟩

def checksums (hashes : HashChain) (h : Header) : Checked ChecksumMatch :=
  return {
    image := h.imageCheck == (← read hashes.image 0)
    fuses := h.fusesCheck == (← read hashes.fuses 0)
    info := h.infoCheck == (← read hashes.info 0) }

-- The log line on a digest.
def digestLine (label : String) (digest : Digest) (agrees : Bool) : Checked LogLine := do
  let first := Text.hexUpper 8 (← read digest 0).toNat
  let last := Text.hexUpper 8 (← read digest 7).toNat
  return ⟨.debug, label ++ " =" ++ first ++ ".." ++ last ++ " : " ++
    (if agrees then "true" else "false")⟩

def hashLog (hashes : HashChain) (matched : ChecksumMatch) : Checked (List LogLine) :=
  return [← digestLine "Himg" hashes.image matched.image,
    ← digestLine "Hfss" hashes.fuses matched.fuses, ← digestLine "Hinf" hashes.info matched.info]

theorem compute_eq_ok (info : Bank) (h : Header) (image : Bytes) :
    compute info h image = .ok (HashChain.compute info h image) := by
  unfold compute HashChain.compute
  split
  · rw [fuseBank_eq_ok, ok_bind, senseFuses_eq_ok, ok_bind, senseInfo_eq_ok, ok_bind, pure_eq_ok]
  · rfl

theorem heads_eq_ok (hashes : HashChain) : heads hashes = .ok hashes.heads := rfl

theorem checksums_eq_ok (hashes : HashChain) (h : Header) :
    checksums hashes h = .ok (hashes.checksums h) := rfl

theorem hashLog_eq_ok (hashes : HashChain) (matched : ChecksumMatch) :
    hashLog hashes matched = .ok (Verifier.hashLog hashes matched) := rfl

end Checked

end SignedFlash
