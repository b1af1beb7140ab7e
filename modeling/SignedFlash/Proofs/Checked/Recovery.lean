import SignedFlash.Proofs.Checked.Arithmetic

/-!
# Checked signatures

The test of a signature with all its indices. A random draw is below the number of places, so that
the walks stay inside the words that they fold, and inside the digest that is read backwards.
-/

namespace SignedFlash

namespace Checked

/-! ## Walks -/

/-- Changes the words at `count` of `n` places: from an offset on in steps of five, and around. -/
def around (n : Nat) (change : Number → Nat → Checked Number) :
    (count : Nat) → Number → (offset : Nat) → Checked Number
  | 0, buf, _ => return buf
  | count + 1, buf, offset => do
    let buf ← change buf offset
    around n change count buf ((← addOffset offset 5) % n)

theorem around_eq_ok {n : Nat} (hn : n + 5 ≤ maxOffset) {change : Number → Nat → Checked Number}
    {f : Number → Nat → Number} (hchange : ∀ buf, ∀ i < n, change buf i = .ok (f buf i))
    (count : Nat) (buf : Number) {offset : Nat} (hoffset : offset < n) :
    around n change count buf offset =
      .ok (((List.range count).map fun k => (offset + 5 * k) % n).foldl f buf) := by
  induction count generalizing buf offset with
  | zero => rfl
  | succ count ih =>
    have hnext : (offset + 5) % n < n := Nat.mod_lt _ (Nat.zero_lt_of_lt hoffset)
    have hplaces : ((List.range (count + 1)).map fun k => (offset + 5 * k) % n) =
        offset :: (List.range count).map fun k => ((offset + 5) % n + 5 * k) % n := by
      rw [List.range_succ_eq_map, List.map_cons, List.map_map, List.cons.injEq]
      refine ⟨Nat.mod_eq_of_lt hoffset, List.map_congr_left fun k _ => ?_⟩
      rw [Function.comp_apply, Nat.mod_add_mod, Nat.succ_eq_add_one, Nat.mul_succ, Nat.add_assoc,
        Nat.add_comm 5]
    rw [around, hchange buf offset hoffset, ok_bind, addOffset_of_le (by omega), ok_bind,
      ih _ hnext, hplaces, List.foldl_cons]

-- Once around is a walk.
theorem around_eq_ok_walk {n : Nat} (hn : n + 5 ≤ maxOffset)
    {change : Number → Nat → Checked Number} {f : Number → Nat → Number}
    (hchange : ∀ buf, ∀ i < n, change buf i = .ok (f buf i)) (buf : Number) {start : Nat}
    (hstart : start < n) : around n change n buf start = .ok ((walk n start).foldl f buf) :=
  around_eq_ok hn hchange n buf hstart

/-! ## Folding -/

def liftLegacy (buf : Number) : Checked Number := do
  let buf ← write buf 95 ((← read buf 95) ^^^ (← read buf 63))
  let buf ← write buf 63 ((← read buf 63) ^^^ 0x1ffff)
  mapRange buf 63 95 fun w => w ^^^ 0xffffffff

-- The encoded digest that a key gives, in the layout of a long key.
def lift (key : PublicKey) (encoded : Number) : Checked Number := do
  if (← read key.modulus 95) == 0 then liftLegacy encoded else return encoded

def foldPlace (buf : Number) (i : Nat) : Checked Number := do
  write buf i ((← read buf i) ^^^ (← addWord 0x1000 (UInt32.ofNat i)))

def foldDigestPlace (final : Digest) (skipHash : Bool) (buf : Number) (i : Nat) :
    Checked Number := do
  if skipHash then write buf i 0x1010
  else
    let expected ← read final (← subOffset 7 i)
    write buf i ((← read buf i) ^^^
      (Word.swapBytes expected ^^^ (← addWord (UInt32.ofNat i) 0x10)))

theorem liftLegacy_eq_ok (buf : Number) : liftLegacy buf = .ok (SignedFlash.liftLegacy buf) := by
  have hcopied := set_getD buf (fun w => w ^^^ buf.getD 63) 95
  have htrimmed := set_getD (buf.modify 95 fun w => w ^^^ buf.getD 63) (fun w => w ^^^ 0x1ffff) 63
  rw [liftLegacy, read_of_lt _ (by decide), ok_bind, read_of_lt _ (by decide), ok_bind,
    write_of_lt _ _ (by decide), ok_bind, hcopied, read_of_lt _ (by decide), ok_bind,
    write_of_lt _ _ (by decide), ok_bind, htrimmed, mapRange, if_pos (by decide)]
  rfl

theorem lift_eq_ok (key : PublicKey) (encoded : Number) :
    lift key encoded =
      .ok (if key.isLegacy then SignedFlash.liftLegacy encoded else encoded) := by
  rw [lift, read_of_lt _ (by decide), ok_bind, liftLegacy_eq_ok, pure_eq_ok, PublicKey.isLegacy,
    apply_ite Except.ok]

-- Places are so few that a word has room for them, and for more.
theorem toNat_ofNat_of_lt {i : Nat} (hi : i < 96) : (UInt32.ofNat i).toNat = i := by
  rw [UInt32.toNat_ofNat']
  omega

theorem foldPlace_eq_ok (buf : Number) {i : Nat} (hi : i < 96) :
    foldPlace buf i = .ok (buf.modify i fun w => w ^^^ (0x1000 + UInt32.ofNat i)) := by
  have hsum : (0x1000 : Word).toNat + (UInt32.ofNat i).toNat < 2 ^ 32 := by
    rw [toNat_ofNat_of_lt hi, show (0x1000 : Word).toNat = 0x1000 from rfl]
    omega
  rw [foldPlace, read_of_lt _ hi, ok_bind, addWord_of_lt hsum, ok_bind, write_of_lt _ _ hi,
    set_getD buf (fun w => w ^^^ (0x1000 + UInt32.ofNat i))]

theorem foldDigestPlace_eq_ok (final : Digest) (skipHash : Bool) (buf : Number) {i : Nat}
    (hi : i < 8) :
    foldDigestPlace final skipHash buf i =
      .ok (if skipHash then buf.set i 0x1010
        else buf.modify i fun w =>
          w ^^^ (Word.swapBytes (final.getD (7 - i)) ^^^ (UInt32.ofNat i + 0x10))) := by
  have hplace : i < 96 := by omega
  cases skipHash with
  | true =>
    rw [foldDigestPlace, if_pos rfl, if_pos rfl, write_of_lt _ _ hplace]
  | false =>
    have hsum : (UInt32.ofNat i).toNat + (0x10 : Word).toNat < 2 ^ 32 := by
      rw [toNat_ofNat_of_lt hplace, show (0x10 : Word).toNat = 0x10 from rfl]
      omega
    rw [foldDigestPlace, if_neg Bool.false_ne_true, if_neg Bool.false_ne_true,
      subOffset_of_le (by omega), ok_bind, read_of_lt _ (by omega), ok_bind, read_of_lt _ hplace,
      ok_bind, addWord_of_lt hsum, ok_bind, write_of_lt _ _ hplace,
      set_getD buf fun w => w ^^^
        (Word.swapBytes (final.getD (7 - i)) ^^^ (UInt32.ofNat i + 0x10))]

/-! ## Signatures -/

def recover (session : Session) (key : PublicKey) (signature : Number) (final : Digest)
    (skipHash : Bool) : Checked (Number × Session) := do
  let lifted ← lift key (← power key signature)
  let (start, source) ← below session.source 96
  let folded ← around 96 foldPlace 96 lifted start
  let (start, source) ← below source 8
  let buffer ← around 8 (foldDigestPlace final skipHash) 8 folded start
  return (buffer, { session with source := source })

def verifySignature (session : Session) (key : PublicKey) (signature : Number) (final : Digest)
    (skipHash : Bool) : Checked Session.SignatureCheck := do
  let (buffer, next) ← recover session key signature final skipHash
  return ⟨next.unlocked (Sha256.digestWords buffer), buffer, next⟩

theorem foldPlaces_eq_ok (buf : Number) {start : Nat} (hstart : start < 96) :
    around 96 foldPlace 96 buf start = .ok (foldPlaces buf start) :=
  around_eq_ok_walk (by decide) (fun buf _ hi => foldPlace_eq_ok buf hi) buf hstart

theorem foldDigest_eq_ok (buf : Number) (final : Digest) (skipHash : Bool) {start : Nat}
    (hstart : start < 8) :
    around 8 (foldDigestPlace final skipHash) 8 buf start =
      .ok (foldDigest buf final skipHash start) :=
  around_eq_ok_walk (by decide) (fun buf _ hi => foldDigestPlace_eq_ok final skipHash buf hi) buf
    hstart

theorem recover_eq_ok (session : Session) (key : PublicKey) (signature : Number) (final : Digest)
    (skipHash : Bool) :
    recover session key signature final skipHash =
      .ok (session.recover key signature final skipHash) := by
  have hplace : (session.source.below 96).1 < 96 := Nat.mod_lt _ (by decide)
  have hdigest : ((session.source.below 96).2.below 8).1 < 8 := Nat.mod_lt _ (by decide)
  rw [recover, power_eq_ok, ok_bind, lift_eq_ok, ok_bind, below_of_pos _ (by decide), ok_bind]
  change (around 96 foldPlace 96 _ (session.source.below 96).1 >>= _) = _
  rw [foldPlaces_eq_ok _ hplace, ok_bind, below_of_pos _ (by decide), ok_bind]
  change (around 8 _ 8 _ ((session.source.below 96).2.below 8).1 >>= _) = _
  rw [foldDigest_eq_ok _ _ _ hdigest, ok_bind, pure_eq_ok]
  rfl

theorem verifySignature_eq_ok (session : Session) (key : PublicKey) (signature : Number)
    (final : Digest) (skipHash : Bool) :
    verifySignature session key signature final skipHash =
      .ok (session.verifySignature key signature final skipHash) := by
  rw [verifySignature, recover_eq_ok, ok_bind]
  rfl

end Checked

end SignedFlash
