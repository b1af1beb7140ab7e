import SignedFlash.Otp
import SignedFlash.Proofs.Checked.Basic
import SignedFlash.Proofs.Numbers
import SignedFlash.Proofs.Records

/-!
# Marking words

The two maps of a header are sets of word numbers. Marking a word puts its number into one of them
and touches nothing else, neither in the other map nor in any other byte of the header, so that a
sequence of marks leaves what the set of its numbers leaves. A mark outside the map stops before it
writes. A bank is sensed through the same maps: a word that is not in its map gives way to the
family's constant.
-/

namespace SignedFlash

/-! ## Maps as sets -/

namespace Selection

variable {selection made : Words 4} {i j : Nat}

-- A map has a bit for a word exactly if it has the word that this bit is in.
theorem div_lt_iff : i / 32 < 4 ↔ i < limit := by
  unfold limit
  omega

theorem selects_of_limit_le (selection : Words 4) (hj : limit ≤ j) :
    selects selection j = false := by
  have hwords : selection.toList.length ≤ j / 32 := by
    rw [selection.length_toList]
    exact Nat.not_lt.mp fun hword => Nat.not_lt.mpr hj (div_lt_iff.mp hword)
  rw [selects, Words.getD, List.getD_eq_default _ _ hwords]
  exact Nat.zero_testBit _

-- A map is a number: what it says of word `i` is bit `i` of it.
theorem selects_eq_testBit (selection : Words 4) (i : Nat) :
    selects selection i = selection.toNat.testBit i := (testBit_numberOfWords _ _).symm

-- Maps that select the same words are the same.
theorem ext_selects {a b : Words 4} (h : ∀ j < limit, selects a j = selects b j) : a = b := by
  apply Words.ext
  apply numberOfWords_injective (a.length_toList.trans b.length_toList.symm)
  apply Nat.eq_of_testBit_eq
  intro j
  show a.toNat.testBit j = b.toNat.testBit j
  rw [← selects_eq_testBit, ← selects_eq_testBit]
  by_cases hj : j < limit
  · exact h j hj
  · rw [selects_of_limit_le a (Nat.not_lt.mp hj), selects_of_limit_le b (Nat.not_lt.mp hj)]

theorem mark?_of_lt (selection : Words 4) (hi : i < limit) :
    mark? selection i = some (selection.modify (i / 32) fun w =>
      w ||| ((1 : Word) <<< UInt32.ofNat (i % 32))) := if_pos hi

theorem mark?_of_limit_le (selection : Words 4) (hi : limit ≤ i) : mark? selection i = none :=
  if_neg (Nat.not_lt.mpr hi)

/-- Marking a word selects it, besides those that were selected. -/
theorem selects_mark? (h : mark? selection i = some made) (hj : j < limit) :
    selects made j = (selects selection j || decide (i = j)) := by
  unfold mark? at h
  split at h
  case isFalse => exact nomatch h
  obtain rfl := Option.some.inj h
  rw [selects, selects, Words.getD_modify _ _ (div_lt_iff.mpr hj)]
  by_cases hword : i / 32 = j / 32
  · have hindex : (i % 32 = j % 32) ↔ i = j := by omega
    rw [if_pos hword, Word.testBit_or_shiftLeft _ (Nat.mod_lt _ (by decide)),
      decide_eq_decide.mpr hindex]
  · have hne : i ≠ j := by
      rintro rfl
      exact hword rfl
    rw [if_neg hword, decide_eq_false hne, Bool.or_false]

end Selection

/-! ## Calls -/

-- The maps of a header: of the fuse words that are hashed, and of the info words.
inductive BankMap where
  | fuses
  | info
  deriving DecidableEq

def BankMap.field : BankMap → Header.Field
  | .fuses => .fuseMap
  | .info => .infoMap

/-- A call that marks a word in one of the maps. -/
@[ext] structure MarkCall where
  bank : BankMap
  index : Nat
  deriving DecidableEq

namespace Header

def map (h : Header) : BankMap → Words 4
  | .fuses => h.fuseMap
  | .info => h.infoMap

def setMap (h : Header) : BankMap → Words 4 → Header
  | .fuses, selection => { h with fuseMap := selection }
  | .info, selection => { h with infoMap := selection }

def selected? (h : Header) : BankMap → Nat → Option Bool
  | .fuses => h.fuseSelected?
  | .info => h.infoSelected?

def mark? (h : Header) (call : MarkCall) : Option Header :=
  match call.bank with
  | .fuses => h.markFuse? call.index
  | .info => h.markInfo? call.index

end Header

namespace Checked

variable {α : Type}

@[simp] theorem run_ofExcept_ok (a : α) (h : Header) :
    (ofExcept (.ok a : Checked α) : EStateM Trap Header α).run h = .ok a h := rfl

@[simp] theorem run_ofExcept_error (trap : Trap) (h : Header) :
    (ofExcept (.error trap : Checked α) : EStateM Trap Header α).run h = .error trap h := rfl

end Checked

/-- What a call does to a header in place: it finds the bit and the word, and then writes. -/
def MarkCall.inPlace (call : MarkCall) : EStateM Trap Header Unit := do
  let bit ← ofExcept (Checked.shiftWord 1 (call.index % 32))
  let h ← get
  let w ← ofExcept (Checked.read (h.map call.bank) (call.index / 32))
  set (h.setMap call.bank ((h.map call.bank).set (call.index / 32) (w ||| bit)))

namespace Header

-- The header that a call leaves, also one that stops.
def afterMark (h : Header) (call : MarkCall) : Header :=
  match call.inPlace.run h with
  | .ok _ made => made
  | .error _ made => made

def afterMarks (h : Header) (calls : List MarkCall) : Header := calls.foldl afterMark h

variable {h : Header} {call : MarkCall}

theorem mark?_eq (h : Header) (call : MarkCall) :
    h.mark? call = (Selection.mark? (h.map call.bank) call.index).map (h.setMap call.bank) := by
  unfold mark?
  cases call.bank <;> rfl

theorem selected?_eq (h : Header) (bank : BankMap) (j : Nat) :
    h.selected? bank j = Selection.selects? (h.map bank) j := by
  cases bank <;> rfl

theorem map_setMap (h : Header) (bank other : BankMap) (selection : Words 4) :
    (h.setMap bank selection).map other = if bank = other then selection else h.map other := by
  cases bank <;> cases other <;> rfl

theorem get_setMap (h : Header) (bank : BankMap) (selection : Words 4) {f : Field}
    (hf : ∀ bank : BankMap, f ≠ bank.field) : (h.setMap bank selection).get f = h.get f := by
  cases bank with
  | fuses => exact layout.get_set_of_ne h .fuseMap selection f (hf .fuses)
  | info => exact layout.get_set_of_ne h .infoMap selection f (hf .info)

/-- A call with a number that is in the map puts it there. -/
theorem inPlace_of_lt (h : Header) (hcall : call.index < Selection.limit) :
    ∃ made, h.mark? call = some made ∧ call.inPlace.run h = .ok () made := by
  have hread := Checked.read_of_lt (h.map call.bank) (Selection.div_lt_iff.mpr hcall)
  rw [mark?_eq, Selection.mark?_of_lt _ hcall]
  refine ⟨_, rfl, ?_⟩
  rw [← Checked.set_getD, MarkCall.inPlace, Checked.shiftWord_of_lt _ (Nat.mod_lt _ (by decide))]
  simp [hread]

/-- Any other call stops where it looks for the word, and leaves the header as it is. -/
theorem inPlace_of_limit_le (h : Header) (hcall : Selection.limit ≤ call.index) :
    h.mark? call = none ∧ call.inPlace.run h = .error .index h := by
  have hword : ¬ call.index / 32 < 4 := by
    rwa [Selection.div_lt_iff, Nat.not_lt]
  have hread : Checked.read (h.map call.bank) (call.index / 32) = .error .index := if_neg hword
  rw [mark?_eq, Selection.mark?_of_limit_le _ hcall]
  refine ⟨rfl, ?_⟩
  rw [MarkCall.inPlace, Checked.shiftWord_of_lt _ (Nat.mod_lt _ (by decide))]
  simp [hread]

theorem afterMark_of_lt (h : Header) (hcall : call.index < Selection.limit) :
    ∃ selection, Selection.mark? (h.map call.bank) call.index = some selection ∧
      h.setMap call.bank selection = h.afterMark call := by
  obtain ⟨made, hmark, hrun⟩ := h.inPlace_of_lt hcall
  rwa [mark?_eq, ← show h.afterMark call = made by rw [afterMark, hrun],
    Option.map_eq_some_iff] at hmark

theorem afterMark_of_limit_le (h : Header) (hcall : Selection.limit ≤ call.index) :
    h.afterMark call = h := by
  rw [afterMark, (h.inPlace_of_limit_le hcall).2]

/-! ## One call -/

/-- A call selects its word, besides those that were selected in both maps. -/
theorem selects_afterMark (h : Header) (call : MarkCall) (bank : BankMap) {j : Nat}
    (hj : j < Selection.limit) :
    Selection.selects ((h.afterMark call).map bank) j =
      (Selection.selects (h.map bank) j || decide (⟨bank, j⟩ = call)) := by
  by_cases hi : call.index < Selection.limit
  · obtain ⟨selection, hselection, hmade⟩ := h.afterMark_of_lt hi
    rw [← hmade, map_setMap]
    by_cases hbank : call.bank = bank
    · subst hbank
      have hindex : (⟨call.bank, j⟩ : MarkCall) = call ↔ call.index = j := by
        rw [MarkCall.ext_iff]
        simp [eq_comm]
      rw [if_pos rfl, Selection.selects_mark? hselection hj, decide_eq_decide.mpr hindex]
    · have hne : (⟨bank, j⟩ : MarkCall) ≠ call := fun h => hbank (congrArg MarkCall.bank h.symm)
      rw [if_neg hbank, decide_eq_false hne, Bool.or_false]
  · have hne : (⟨bank, j⟩ : MarkCall) ≠ call := by
      rintro rfl
      exact hi hj
    rw [h.afterMark_of_limit_le (Nat.not_lt.mp hi), decide_eq_false hne, Bool.or_false]

theorem get_afterMark (h : Header) (call : MarkCall) {f : Field}
    (hf : ∀ bank : BankMap, f ≠ bank.field) : (h.afterMark call).get f = h.get f := by
  by_cases hi : call.index < Selection.limit
  · obtain ⟨selection, -, hmade⟩ := h.afterMark_of_lt hi
    rw [← hmade, h.get_setMap _ _ hf]
  · rw [h.afterMark_of_limit_le (Nat.not_lt.mp hi)]

/-! ## Sequences of calls -/

/-- What a sequence of calls leaves selects the words of its calls, besides those that were
selected. -/
theorem selects_afterMarks (h : Header) (calls : List MarkCall) (bank : BankMap) {j : Nat}
    (hj : j < Selection.limit) :
    Selection.selects ((h.afterMarks calls).map bank) j =
      (Selection.selects (h.map bank) j || decide (⟨bank, j⟩ ∈ calls)) := by
  induction calls generalizing h with
  | nil => simp [afterMarks]
  | cons call calls ih =>
    rw [afterMarks, List.foldl_cons, ← afterMarks, ih, selects_afterMark _ _ _ hj, Bool.or_assoc,
      ← Bool.decide_or]
    simp only [List.mem_cons]

theorem get_afterMarks (h : Header) (calls : List MarkCall) {f : Field}
    (hf : ∀ bank : BankMap, f ≠ bank.field) : (h.afterMarks calls).get f = h.get f := by
  induction calls generalizing h with
  | nil => rfl
  | cons call calls ih => exact (ih (h.afterMark call)).trans (h.get_afterMark call hf)

theorem ext_map {h h' : Header} (hmap : ∀ bank, h.map bank = h'.map bank)
    (hget : ∀ f : Field, (∀ bank : BankMap, f ≠ bank.field) → h.get f = h'.get f) : h = h' := by
  apply ext_get
  intro f
  by_cases hf : ∀ bank : BankMap, f ≠ bank.field
  · exact hget f hf
  · simp only [not_forall, not_not] at hf
    obtain ⟨bank, rfl⟩ := hf
    cases bank with
    | fuses => exact hmap .fuses
    | info => exact hmap .info

/-- Neither the order of calls counts, nor how often one is made, nor those that stop. -/
theorem afterMarks_congr (h : Header) {calls calls' : List MarkCall}
    (hcalls : ∀ call : MarkCall, call.index < Selection.limit → (call ∈ calls' ↔ call ∈ calls)) :
    h.afterMarks calls' = h.afterMarks calls := by
  apply ext_map
  · intro bank
    apply Selection.ext_selects
    intro j hj
    rw [selects_afterMarks _ _ _ hj, selects_afterMarks _ _ _ hj,
      decide_eq_decide.mpr (hcalls ⟨bank, j⟩ hj)]
  · intro f hf
    rw [h.get_afterMarks calls' hf, h.get_afterMarks calls hf]

end Header

/-! ## Bits -/

-- Bit `p` of a byte string, the lowest bit of its first byte being bit zero.
def Bytes.testBit (bs : Bytes) (p : Nat) : Bool := (bs.getD (p / 8) 0).toNat.testBit (p % 8)

/-- The bits of a field in the bytes of a record are those of the number that it holds. -/
theorem RecordLayout.testBit_encode {Record Field : Type} (l : RecordLayout Record Field)
    (x : Record) (f : Field) {p : Nat} (hp : p < 8 * (l.shape f).size) :
    Bytes.testBit (l.encode x) (8 * l.offset f + p) =
      ((l.shape f).number (l.get x f)).testBit p := by
  have hbyte := l.getElem?_encode x f (i := p / 8) (by omega)
  have hpower : 256 ^ (p / 8) = 2 ^ (8 * (p / 8)) := (Nat.pow_mul 2 8 (p / 8)).symm
  rw [Bytes.testBit, show (8 * l.offset f + p) / 8 = l.offset f + p / 8 by omega,
    show (8 * l.offset f + p) % 8 = p % 8 by omega, List.getD_eq_getElem?_getD, hbyte,
    Option.getD_some, UInt8.toNat_ofNat', hpower, Nat.testBit_mod_two_pow,
    Nat.testBit_div_two_pow, decide_eq_true (Nat.mod_lt _ (by decide)), Bool.true_and,
    Nat.mod_add_div]

namespace Header

theorem testBit_map (h : Header) (bank : BankMap) {j : Nat} (hj : j < Selection.limit) :
    Bytes.testBit h.encode (8 * bank.field.offset + j) = Selection.selects (h.map bank) j := by
  rw [Selection.selects_eq_testBit]
  cases bank with
  | fuses => exact layout.testBit_encode h .fuseMap hj
  | info => exact layout.testBit_encode h .infoMap hj

theorem testBit_of_structureSize_le (h : Header) {p : Nat} (hp : 8 * structureSize ≤ p) :
    Bytes.testBit h.encode p = false := by
  have hlength : h.encode.length ≤ p / 8 := by
    rw [h.length_encode]
    omega
  rw [Bytes.testBit, List.getD_eq_default _ _ hlength]
  exact Nat.zero_testBit _

end Header

-- The bit of a header that a call sets.
def MarkCall.bit (call : MarkCall) : Nat := 8 * call.bank.field.offset + call.index

theorem BankMap.size_field (bank : BankMap) : 8 * bank.field.shape.size = Selection.limit := by
  cases bank <;> rfl

theorem MarkCall.bit_lt {call : MarkCall} (hcall : call.index < Selection.limit) :
    call.bit < 8 * structureSize := by
  have hinside : call.bank.field.offset + call.bank.field.shape.size ≤ structureSize :=
    Header.layout.inside call.bank.field
  have hsize := call.bank.size_field
  unfold bit
  omega

-- The maps do not overlap.
theorem MarkCall.bit_injective {call other : MarkCall} (hcall : call.index < Selection.limit)
    (hother : other.index < Selection.limit) (h : call.bit = other.bit) : call = other := by
  obtain ⟨bank, i⟩ := call
  obtain ⟨bank', j⟩ := other
  have hbank : bank = bank' := by
    unfold Selection.limit at hcall hother
    cases bank <;> cases bank' <;>
      first | rfl | (dsimp only [bit, BankMap.field, Header.Field.offset] at h hcall hother; omega)
  subst hbank
  have hindex : i = j := Nat.add_left_cancel h
  rw [hindex]

namespace Header

-- Every bit of a header is one of a map, or belongs to a field that is no map.
theorem bit_cases {p : Nat} (hp : p < 8 * structureSize) :
    (∃ call : MarkCall, call.index < Selection.limit ∧ p = call.bit) ∨
    ∃ f : Field, (∀ bank : BankMap, f ≠ bank.field) ∧
      (∀ call : MarkCall, call.index < Selection.limit → p ≠ call.bit) ∧
      ∃ r < 8 * f.shape.size, p = 8 * f.offset + r := by
  obtain ⟨f, hcovers, honly⟩ := layout.existsUnique_covering (i := p / 8) (by omega)
  obtain ⟨hlow, hhigh⟩ : f.offset ≤ p / 8 ∧ p / 8 < f.offset + f.shape.size := hcovers
  by_cases hf : ∀ bank : BankMap, f ≠ bank.field
  · refine Or.inr ⟨f, hf, fun call hcall hbit => ?_, p - 8 * f.offset, by omega, by omega⟩
    have hsize := call.bank.size_field
    unfold MarkCall.bit at hbit
    have hcovered : call.bank.field.offset ≤ p / 8 ∧
        p / 8 < call.bank.field.offset + call.bank.field.shape.size := by omega
    exact hf call.bank (honly call.bank.field hcovered).symm
  · simp only [not_forall, not_not] at hf
    obtain ⟨bank, rfl⟩ := hf
    have hsize := bank.size_field
    refine Or.inl ⟨⟨bank, p - 8 * bank.field.offset⟩, ?_, ?_⟩
    · show p - 8 * bank.field.offset < Selection.limit
      omega
    · show p = 8 * bank.field.offset + (p - 8 * bank.field.offset)
      omega

/-- In the bytes of a header, calls set the bits of their words and change no other. -/
theorem testBit_encode_afterMarks (h : Header) (calls : List MarkCall) (p : Nat) :
    Bytes.testBit (h.afterMarks calls).encode p = true ↔
      Bytes.testBit h.encode p = true ∨
        ∃ call ∈ calls, call.index < Selection.limit ∧ p = call.bit := by
  by_cases hp : p < 8 * structureSize
  · rcases bit_cases hp with ⟨call, hcall, rfl⟩ | ⟨f, hf, hother, r, hr, rfl⟩
    · have hmember : (∃ other ∈ calls, other.index < Selection.limit ∧ call.bit = other.bit) ↔
          call ∈ calls := by
        constructor
        · rintro ⟨other, hmem, hlt, hbit⟩
          rwa [MarkCall.bit_injective hcall hlt hbit]
        · exact fun hmem => ⟨call, hmem, hcall, rfl⟩
      rw [hmember, MarkCall.bit, testBit_map _ _ hcall, testBit_map _ _ hcall,
        selects_afterMarks _ _ _ hcall, Bool.or_eq_true, decide_eq_true_iff]
    · have hnone : ¬ ∃ call ∈ calls, call.index < Selection.limit ∧ 8 * f.offset + r = call.bit :=
        fun ⟨call, _, hlt, hbit⟩ => hother call hlt hbit
      have hbits (x : Header) : Bytes.testBit x.encode (8 * f.offset + r) =
          (f.shape.number (x.get f)).testBit r := layout.testBit_encode x f hr
      rw [hbits, hbits, h.get_afterMarks calls hf]
      exact ⟨Or.inl, fun hbit => hbit.resolve_right hnone⟩
  · have hnone : ¬ ∃ call ∈ calls, call.index < Selection.limit ∧ p = call.bit := by
      rintro ⟨call, -, hlt, rfl⟩
      exact hp (MarkCall.bit_lt hlt)
    rw [testBit_of_structureSize_le _ (Nat.not_lt.mp hp),
      testBit_of_structureSize_le _ (Nat.not_lt.mp hp)]
    exact ⟨nofun, fun hbit => absurd (hbit.resolve_left nofun) hnone⟩

end Header

/-! ## Sensing -/

/-- Sensed fuse words: those selected stand as they are in the bank, others give way to the family's
constant, and the word of the device id, if there is one, to the device id. -/
theorem FuseBank.getD_sense (bank : Bank) (h : Header) {i : Nat} (hi : i < 128) :
    (sense bank h).getD i =
      if i = nodeLockIndex ∧ h.isNodeLocked = true then
        if Header.deviceIdSet h.deviceId1 then h.deviceId1 else h.deviceId0
      else if Selection.selects h.fuseMap i then bank.getD i else h.sensingFamily.fuseIgnore := by
  have hselected : (bank.mapIdx fun i w =>
        if Selection.selects h.fuseMap i then w else h.sensingFamily.fuseIgnore).getD i =
      if Selection.selects h.fuseMap i then bank.getD i else h.sensingFamily.fuseIgnore :=
    Words.getD_mapIdx _ _ hi
  have hlock (b : Bank) (id : Word) :
      (if Header.deviceIdSet id then b.set nodeLockIndex id else b).getD i =
        if i = nodeLockIndex ∧ Header.deviceIdSet id = true then id else b.getD i := by
    by_cases hset : Header.deviceIdSet id = true
    · rw [if_pos hset, Words.getD_set _ _ hi]
      simp [hset, eq_comm]
    · simp [hset]
  rw [sense, hlock, hlock, hselected, Header.isNodeLocked]
  by_cases hindex : i = nodeLockIndex
  · -- the second device id is written last
    cases Header.deviceIdSet h.deviceId0 <;> cases Header.deviceIdSet h.deviceId1 <;> simp [hindex]
  · simp [hindex]

theorem InfoBank.getD_sense (bank : Bank) (h : Header) {i : Nat} (hi : i < 128) :
    (sense bank h).getD i =
      if Selection.selects h.infoMap i then h.sensingFamily.infoIgnore ^^^ bank.getD i
      else h.sensingFamily.infoIgnore := Words.getD_mapIdx _ _ hi

/-! ## Marking and sensing -/

/-- What a sequence of calls makes of a header. -/
structure Header.IsMarked (h : Header) (calls : List MarkCall) (made : Header) : Prop where
  selected : ∀ bank, ∀ j < 128,
    (made.selected? bank j = some true ↔ h.selected? bank j = some true ∨ ⟨bank, j⟩ ∈ calls)
  fields : ∀ f : Field, f ≠ .fuseMap → f ≠ .infoMap → made.get f = h.get f
  bits : ∀ p, (made.encode.testBit p = true ↔
    h.encode.testBit p = true ∨ ∃ call ∈ calls, call.index < 128 ∧ p = call.bit)

namespace Header

theorem selected?_eq_some_true_iff (h : Header) (bank : BankMap) {j : Nat}
    (hj : j < Selection.limit) :
    h.selected? bank j = some true ↔ Selection.selects (h.map bank) j = true := by
  rw [selected?_eq, Selection.selects?, if_pos hj, Option.some_inj]

theorem isMarked_afterMarks (h : Header) (calls : List MarkCall) :
    h.IsMarked calls (h.afterMarks calls) where
  selected bank j hj := by
    rw [selected?_eq_some_true_iff _ _ hj, selected?_eq_some_true_iff _ _ hj,
      selects_afterMarks _ _ _ hj, Bool.or_eq_true, decide_eq_true_iff]
  fields f hfuses hinfo := by
    apply get_afterMarks
    intro bank
    cases bank with
    | fuses => exact hfuses
    | info => exact hinfo
  bits := testBit_encode_afterMarks h calls

end Header

/-- Marking puts numbers into the two maps of a header and does nothing else to it. The order of
marks and their repetition do not count. A mark from 128 on stops and leaves the header as it is.
Sensing reads the same maps: of the fuse words it leaves those that are selected, and of the info
words these exclusive-or the family's constant, which stands for all others, where a magic number
that is unknown counts as Dauntless. The fuse word of the device id comes last. -/
theorem marks_are_independent (h : Header) (calls : List MarkCall) :
    h.IsMarked calls (h.afterMarks calls) ∧
    (∀ calls', (∀ call : MarkCall, call.index < 128 → (call ∈ calls' ↔ call ∈ calls)) →
      h.afterMarks calls' = h.afterMarks calls) ∧
    (∀ (h : Header) (call : MarkCall),
      if call.index < 128 then
        ∃ made, h.mark? call = some made ∧ call.inPlace.run h = .ok () made
      else h.mark? call = none ∧ call.inPlace.run h = .error .index h) ∧
    ∀ bank : Bank, ∀ i < 128,
      let made := h.afterMarks calls
      let family := (Family.ofMagic? h.magic).getD .dauntless
      (FuseBank.sense bank made).getD i =
        (if i = 126 ∧ h.isNodeLocked = true then
          if Header.deviceIdSet h.deviceId1 then h.deviceId1 else h.deviceId0
        else if made.fuseSelected? i = some true then bank.getD i else family.fuseIgnore) ∧
      (InfoBank.sense bank made).getD i =
        if made.infoSelected? i = some true then family.infoIgnore ^^^ bank.getD i
        else family.infoIgnore := by
  refine ⟨h.isMarked_afterMarks calls, fun calls' hcalls => h.afterMarks_congr hcalls,
    fun h call => ?_, fun bank i hi => ?_⟩
  · split
    · rename_i hcall
      exact h.inPlace_of_lt hcall
    · rename_i hcall
      exact h.inPlace_of_limit_le (Nat.not_lt.mp hcall)
  · intro made family
    have hother := (h.isMarked_afterMarks calls).fields
    have hmagic : made.magic = h.magic := hother .magic nofun nofun
    have hfirst : made.deviceId0 = h.deviceId0 := hother .deviceId0 nofun nofun
    have hsecond : made.deviceId1 = h.deviceId1 := hother .deviceId1 nofun nofun
    have hfamily : made.sensingFamily = family := by
      rw [Header.sensingFamily, Header.family?, hmagic]
    have hlocked : made.isNodeLocked = h.isNodeLocked := by
      rw [Header.isNodeLocked, Header.isNodeLocked, hfirst, hsecond]
    have hfuses : made.fuseSelected? i = some true ↔ Selection.selects made.fuseMap i = true :=
      made.selected?_eq_some_true_iff .fuses hi
    have hinfo : made.infoSelected? i = some true ↔ Selection.selects made.infoMap i = true :=
      made.selected?_eq_some_true_iff .info hi
    constructor
    · rw [FuseBank.getD_sense _ _ hi, hfamily, hlocked, hfirst, hsecond]
      simp only [hfuses]
      rfl
    · rw [InfoBank.getD_sense _ _ hi, hfamily]
      simp only [hinfo]

/-- Four marks on an empty header, of which the last stops. -/
theorem marks_on_empty_header :
    let empty := Header.decode []
    let made := empty.afterMarks [⟨.fuses, 0⟩, ⟨.fuses, 37⟩, ⟨.info, 127⟩, ⟨.fuses, 128⟩]
    made.fuseSelected? 37 = some true ∧ made.infoSelected? 37 ≠ some true ∧
      made.infoSelected? 127 = some true ∧
      (FuseBank.sense (.replicate 128 7) made).getD 37 = 7 ∧
      (InfoBank.sense (.replicate 128 7) made).getD 37 = Family.dauntless.infoIgnore := by
  intro empty made
  obtain ⟨⟨hselected, -, -⟩, -, -, hsense⟩ := marks_are_independent empty
    [⟨.fuses, 0⟩, ⟨.fuses, 37⟩, ⟨.info, 127⟩, ⟨.fuses, 128⟩]
  have hfuse : made.fuseSelected? 37 = some true :=
    (hselected .fuses 37 (by decide)).mpr (Or.inr (by decide))
  have hother : made.infoSelected? 37 ≠ some true :=
    (hselected .info 37 (by decide)).not.mpr (by decide +kernel)
  have hinfo : made.infoSelected? 127 = some true :=
    (hselected .info 127 (by decide)).mpr (Or.inr (by decide))
  obtain ⟨hfuses, hwords⟩ := hsense (.replicate 128 7) 37 (by decide)
  rw [if_neg (by decide), if_pos hfuse] at hfuses
  rw [if_neg hother] at hwords
  exact ⟨hfuse, hother, hinfo, hfuses, hwords⟩

end SignedFlash
