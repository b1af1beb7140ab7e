import SignedFlash.Proofs.Records
import SignedFlash.Proofs.Words

/-!
# Boards

An image runs on a device that has every flag which the image requires and whose type agrees with
the image's in each bit that counts. A device keeps its type twice, the second time complemented,
and a bit that counts must be right in both, so that a device whose two copies fit together badly
there is refused by every image. Only a device without a type, which has all bits of both copies
set, is asked for no more than its flags. So a device is never refused for having more flags, nor an
image for letting fewer bits count.
-/

namespace SignedFlash

namespace BoardId

variable {required device : BoardId} {i : Nat}

/-- Whether a device agrees with a board id in bit `i` of the type, and its complement with it. -/
def AgreesAt (required device : BoardId) (i : Nat) : Prop :=
  Word.testBit device.id i = Word.testBit required.id i ∧
    Word.testBit device.mask i = !Word.testBit device.id i

/-- Whether an image with a board id may run on a device. -/
structure Admits (required device : BoardId) : Prop where
  flags : ∀ i < 32, Word.testBit required.flags i = true → Word.testBit device.flags i = true
  type : (device.id = 0xffffffff ∧ device.mask = 0xffffffff) ∨
    ∀ i < 32, Word.testBit required.mask i = true → required.AgreesAt device i

instance : Decidable (required.AgreesAt device i) := inferInstanceAs (Decidable (_ ∧ _))

instance : Decidable (required.Admits device) :=
  decidable_of_iff (_ ∧ _) ⟨fun h => ⟨h.1, h.2⟩, fun h => ⟨h.1, h.2⟩⟩

theorem typeIsBlank_iff :
    device.typeIsBlank = true ↔ device.id = 0xffffffff ∧ device.mask = 0xffffffff := by
  rw [typeIsBlank, beq_iff_eq]
  exact UInt32.and_eq_neg_one_iff

-- A bit of the type differs from a device's, or not from its complement.
theorem testBit_disagreement (required device : BoardId) (hi : i < 32) :
    Word.testBit ((required.id ^^^ device.id) ||| (required.id ^^^ ~~~device.mask)) i = true ↔
      ¬ required.AgreesAt device i := by
  rw [Word.testBit_or, Word.testBit_xor, Word.testBit_xor, Word.testBit_not _ hi, AgreesAt]
  cases Word.testBit required.id i <;> cases Word.testBit device.id i <;>
    cases Word.testBit device.mask i <;> decide

/-- The bits in which a device with all flags and with a type is refused: those that count and do
not agree. -/
theorem testBit_mismatch (hflags : required.flags &&& device.flags = required.flags)
    (htype : device.typeIsBlank = false) (hi : i < 32) :
    Word.testBit (required.mismatch device) i = true ↔
      Word.testBit required.mask i = true ∧ ¬ required.AgreesAt device i := by
  have hblank : ¬ device.typeIsBlank = true := Bool.eq_false_iff.mp htype
  rw [mismatch, if_neg (not_not.mpr hflags), if_neg hblank, Word.testBit_and, Bool.and_eq_true,
    testBit_disagreement _ _ hi, and_comm]

theorem mismatch_eq_zero_iff : required.mismatch device = 0 ↔ required.Admits device := by
  by_cases hflags : required.flags &&& device.flags = required.flags
  · have hpresent := Word.and_eq_left_iff_testBit.mp hflags
    cases htype : device.typeIsBlank with
    | true =>
      have hzero : required.mismatch device = 0 := by
        rw [mismatch, if_neg (not_not.mpr hflags), if_pos htype]
      exact ⟨fun _ => ⟨hpresent, Or.inl (typeIsBlank_iff.mp htype)⟩, fun _ => hzero⟩
    | false =>
      have hblank : ¬ (device.id = 0xffffffff ∧ device.mask = 0xffffffff) :=
        typeIsBlank_iff.not.mp (Bool.eq_false_iff.mp htype)
      rw [Word.eq_zero_iff_testBit]
      constructor
      · refine fun hzero => ⟨hpresent, Or.inr fun i hi hcounts => ?_⟩
        by_contra hdisagrees
        have hbit := (testBit_mismatch hflags htype hi).mpr ⟨hcounts, hdisagrees⟩
        rw [hzero i hi] at hbit
        exact Bool.false_ne_true hbit
      · intro hadmits i hi
        rw [← Bool.not_eq_true, testBit_mismatch hflags htype hi]
        exact fun h => h.2 (hadmits.type.resolve_left hblank i hi h.1)
  · -- a missing flag is reported as one, whatever the type
    have hmissing : required.mismatch device = 1 := if_pos hflags
    have hrefused : ¬ required.Admits device := fun h =>
      hflags (Word.and_eq_left_iff_testBit.mpr h.flags)
    rw [hmissing]
    exact ⟨fun h => absurd h (by decide), fun h => absurd h hrefused⟩

-- A device with a type is refused if its two copies agree in a bit that counts.
theorem not_admits_of_eq (htype : ¬ (device.id = 0xffffffff ∧ device.mask = 0xffffffff))
    (hi : i < 32) (hcounts : Word.testBit required.mask i = true)
    (hsame : Word.testBit device.mask i = Word.testBit device.id i) :
    ¬ required.Admits device := by
  intro hadmits
  obtain ⟨-, hcomplement⟩ := hadmits.type.resolve_left htype i hi hcounts
  rw [hsame] at hcomplement
  exact Bool.not_ne_self _ hcomplement.symm

theorem Admits.of_more_flags (h : required.Admits device) (more : Word) :
    required.Admits { device with flags := device.flags ||| more } where
  flags i hi hrequired := by
    rw [Word.testBit_or, h.flags i hi hrequired, Bool.true_or]
  type := h.type

theorem Admits.of_fewer_bits (h : required.Admits device) (cleared : Word) :
    { required with mask := required.mask &&& ~~~cleared }.Admits device where
  flags := h.flags
  type := h.type.imp_right fun hagrees i hi hcounts => by
    rw [Word.testBit_and, Bool.and_eq_true] at hcounts
    exact hagrees i hi hcounts.1

end BoardId

/-- An image is admitted to a device exactly if the device has all flags required and, unless it has
no type, agrees with the image's type in each bit that counts. So a device whose copies of the type
are not complementary in such a bit is refused, and one that is admitted is not refused for having
more flags, nor if fewer bits count. -/
theorem board_admission_is_bitwise (h : Header) (device : BoardId) :
    let required : BoardId := ⟨h.storedBoardId.id ^^^ 0x33333333,
      h.storedBoardId.mask ^^^ 0x33333333, h.storedBoardId.flags ^^^ 0x33333333⟩
    (h.boardIdMismatch device = 0 ↔ required.Admits device) ∧
    (¬ (device.id = 0xffffffff ∧ device.mask = 0xffffffff) →
      ∀ i < 32, Word.testBit required.mask i = true →
        Word.testBit device.mask i = Word.testBit device.id i →
        h.boardIdMismatch device ≠ 0) ∧
    (h.boardIdMismatch device = 0 →
      (∀ more : Word, h.boardIdMismatch { device with flags := device.flags ||| more } = 0) ∧
      ∀ cleared : Word,
        (h.setBoardId { required with mask := required.mask &&& ~~~cleared }).boardIdMismatch
          device = 0) := by
  intro required
  have hiff (device : BoardId) : h.boardIdMismatch device = 0 ↔ required.Admits device :=
    BoardId.mismatch_eq_zero_iff
  refine ⟨hiff device, fun htype i hi hcounts hsame => ?_,
    fun hzero => ⟨fun more => ?_, fun cleared => ?_⟩⟩
  · exact (hiff device).not.mpr (BoardId.not_admits_of_eq htype hi hcounts hsame)
  · exact (hiff _).mpr (((hiff device).mp hzero).of_more_flags more)
  · rw [Header.boardIdMismatch, Header.boardId_setBoardId, BoardId.mismatch_eq_zero_iff]
    exact ((hiff device).mp hzero).of_fewer_bits cleared

/-- A device that an image admits is refused once a bit of the complemented type is lost. -/
theorem device_is_refused_for_lost_bit :
    let h := (Header.decode []).setBoardId ⟨0x5a5a4146, 0xffffffff, 0x10⟩
    let device : BoardId := ⟨0x5a5a4146, 0xa5a5beb9, 0x7f10⟩
    let damaged : BoardId := { device with mask := 0xa5a5beb8 }
    h.boardIdMismatch device = 0 ∧
      h.boardIdMismatch { device with flags := 0x7f10 ||| 0x80 } = 0 ∧
      (h.setBoardId { h.boardId with mask := h.boardId.mask &&& ~~~1 }).boardIdMismatch device = 0 ∧
      h.boardIdMismatch damaged ≠ 0 := by
  intro h device damaged
  obtain ⟨hiff, -, hmonotone⟩ := board_admission_is_bitwise h device
  obtain ⟨-, hrefused, -⟩ := board_admission_is_bitwise h damaged
  have hzero : h.boardIdMismatch device = 0 := hiff.mpr (by decide +kernel)
  obtain ⟨hmore, hfewer⟩ := hmonotone hzero
  exact ⟨hzero, hmore 0x80, hfewer 1,
    hrefused (by decide) 0 (by decide) (by decide +kernel) (by decide +kernel)⟩

end SignedFlash
