import SignedFlash.Proofs.Checked.Basic
import SignedFlash.Proofs.Montgomery

/-!
# Checked products

Products as a machine computes them, in place, with sums of 64 bits. No sum of a column overflows,
whatever the words are: the product of two words, a word and a carry are together less than
`2 ^ 64`. So every step of a product gives the words that it should.
-/

namespace SignedFlash

namespace Checked

/-! ## Differences -/

/-- Takes one number from another, word by word. The borrow from below is zero or minus one. -/
def subtract : (borrow : Int) → (d n : List Word) → Checked (List Word)
  | borrow, d :: ds, n :: ns => do
    let word ← signed (borrow + (← signed ((d.toNat : Int) - n.toNat)))
    return UInt32.ofInt word :: (← subtract (word >>> (32 : Nat)) ds ns)
  | _, _, _ => return []

theorem subtract_eq_ok (borrow : Bool) (d n : List Word) :
    subtract (-borrow.toNat) d n = .ok (Modulus.subtract borrow d n) := by
  induction d generalizing borrow n with
  | nil => rfl
  | cons wd d ih =>
    cases n with
    | nil => rfl
    | cons wn n =>
      have hd : wd.toNat < 2 ^ 32 := wd.toNat_lt
      have hn : wn.toNat < 2 ^ 32 := wn.toNat_lt
      have hborrow : borrow.toNat ≤ 1 := Bool.toNat_le borrow
      have hword : UInt32.ofInt (-borrow.toNat + ((wd.toNat : Int) - wn.toNat)) =
          wd - wn - borrow.toUInt32 := by
        have hbit : borrow.toUInt32.toNat = borrow.toNat := by cases borrow <;> rfl
        apply UInt32.toNat_inj.mp
        rw [UInt32.ofInt, UInt32.toNat_ofNat', UInt32.toNat_sub, UInt32.toNat_sub, hbit]
        omega
      have hnext : (-borrow.toNat + ((wd.toNat : Int) - wn.toNat)) >>> (32 : Nat) =
          -(decide (wd.toNat < wn.toNat + borrow.toNat)).toNat := by
        rw [Int.shiftRight_eq_div_pow]
        by_cases hlt : wd.toNat < wn.toNat + borrow.toNat
        · rw [decide_eq_true hlt, Bool.toNat_true]
          omega
        · rw [decide_eq_false hlt, Bool.toNat_false]
          omega
      rw [subtract, signed_of_lt (by omega) (by omega), ok_bind,
        signed_of_lt (by omega) (by omega), ok_bind, hword, hnext, ih, ok_bind, pure_eq_ok,
        Modulus.subtract]

def subtractOnce (m : Modulus) (d : Number) : Checked Number :=
  return .ofList 96 (← subtract 0 d.toList m.words.toList)

theorem subtractOnce_eq_ok (m : Modulus) (d : Number) :
    subtractOnce m d = .ok (m.subtractOnce d) := by
  have h : subtract 0 d.toList m.words.toList = _ := subtract_eq_ok false _ _
  rw [subtractOnce, h, ok_bind, pure_eq_ok, Modulus.subtractOnce]

/-! ## One column of a step -/

-- A product of two words, and a word.
def addProduct (a : UInt64) (w d : Word) : Checked UInt64 := do
  addDouble (← mulDouble a w.toUInt64) d.toUInt64

/-- What a step of a product keeps from one column to the next: the two carries, and the words, of
which those of the columns that are done are already replaced. -/
structure Columns where
  carryA : UInt64
  carryB : UInt64
  words : Number

-- Adds up column `i`. The lower word of its sum goes to the column before.
def column (m : Modulus) (a q : UInt64) (b : Number) (c : Columns) (i : Nat) :
    Checked Columns := do
  let sumA ← addDouble c.carryA (← addProduct a (← read b i) (← read c.words i))
  let sumB ← addDouble c.carryB (← addProduct q (← read m.words i) sumA.toUInt32)
  let words ← write c.words (← subOffset i 1) sumB.toUInt32
  return ⟨sumA >>> 32, sumB >>> 32, words⟩

theorem toNat_addProduct {a : UInt64} (ha : a.toNat < 2 ^ 32) (w d : Word) :
    (a * w.toUInt64 + d.toUInt64).toNat = a.toNat * w.toNat + d.toNat := by
  have hzero : (0 : UInt64).toNat < 2 ^ 32 := by decide
  have h := Modulus.toNat_column hzero ha w d
  rwa [UInt64.zero_add, show (0 : UInt64).toNat = 0 from rfl, Nat.zero_add] at h

theorem toNat_addProduct_lt {a : UInt64} (ha : a.toNat < 2 ^ 32) (w d : Word) :
    a.toNat * w.toNat + d.toNat < 2 ^ 64 - 2 ^ 32 + 1 := by
  have hw : w.toNat < 2 ^ 32 := w.toNat_lt
  have hd : d.toNat < 2 ^ 32 := d.toNat_lt
  have hproduct : a.toNat * w.toNat ≤ (2 ^ 32 - 1) * (2 ^ 32 - 1) :=
    Nat.mul_le_mul (by omega) (by omega)
  omega

theorem addProduct_eq_ok {a : UInt64} (ha : a.toNat < 2 ^ 32) (w d : Word) :
    addProduct a w d = .ok (a * w.toUInt64 + d.toUInt64) := by
  have hlt := toNat_addProduct_lt ha w d
  have hmul : (a * w.toUInt64).toNat = a.toNat * w.toNat := by
    rw [UInt64.toNat_mul, UInt32.toNat_toUInt64]
    omega
  rw [addProduct, mulDouble_of_lt (by rw [UInt32.toNat_toUInt64]; omega), ok_bind,
    addDouble_of_lt (by rw [hmul, UInt32.toNat_toUInt64]; omega)]

-- There is room for a carry of one word.
theorem addDouble_addProduct {carry a : UInt64} (hcarry : carry.toNat < 2 ^ 32)
    (ha : a.toNat < 2 ^ 32) (w d : Word) :
    addDouble carry (a * w.toUInt64 + d.toUInt64) =
      .ok (carry + (a * w.toUInt64 + d.toUInt64)) := by
  have hlt := toNat_addProduct_lt ha w d
  exact addDouble_of_lt (by rw [toNat_addProduct ha]; omega)

theorem column_eq_ok (m : Modulus) {a q : UInt64} (ha : a.toNat < 2 ^ 32) (hq : q.toNat < 2 ^ 32)
    (b : Number) {c : Columns} (hA : c.carryA.toNat < 2 ^ 32) (hB : c.carryB.toNat < 2 ^ 32)
    {i : Nat} (hi : i < 95) {sumA sumB : UInt64}
    (hsumA : c.carryA + (a * (b.getD (i + 1)).toUInt64 + (c.words.getD (i + 1)).toUInt64) = sumA)
    (hsumB : c.carryB + (q * (m.words.getD (i + 1)).toUInt64 + sumA.toUInt32.toUInt64) = sumB) :
    column m a q b c (i + 1) = .ok ⟨sumA >>> 32, sumB >>> 32, c.words.set i sumB.toUInt32⟩ := by
  have hcolumn : i + 1 < 96 := Nat.succ_lt_succ hi
  rw [column, read_of_lt _ hcolumn, ok_bind, read_of_lt _ hcolumn, ok_bind, addProduct_eq_ok ha,
    ok_bind, addDouble_addProduct hA ha, ok_bind, hsumA, read_of_lt _ hcolumn, ok_bind,
    addProduct_eq_ok hq, ok_bind, addDouble_addProduct hB hq, ok_bind, hsumB,
    subOffset_of_le (Nat.le_add_left 1 i), ok_bind, Nat.add_sub_cancel, write_of_lt _ _ (by omega),
    ok_bind, pure_eq_ok]

/-! ## All columns -/

theorem drop_eq_getD_cons (ws : Number) {i : Nat} (hi : i < 96) :
    ws.toList.drop i = ws.getD i :: ws.toList.drop (i + 1) := by
  rw [Words.getD_eq_get ws hi, List.get_eq_getElem, List.getElem_cons_drop]

/-- The sum of the columns above `i` is left in place: behind the words written so far come those of
the other columns but the last, and the two words of the sum of the last carries. -/
theorem foldlM_column (m : Modulus) {a q : UInt64} (ha : a.toNat < 2 ^ 32) (hq : q.toNat < 2 ^ 32)
    (b : Number) {c : Columns} (hA : c.carryA.toNat < 2 ^ 32) (hB : c.carryB.toNat < 2 ^ 32)
    {i : Nat} (hi : i ≤ 95) :
    ∃ last : Columns, (List.range' (i + 1) (95 - i)).foldlM (column m a q b) c = .ok last ∧
      last.carryA.toNat < 2 ^ 32 ∧ last.carryB.toNat < 2 ^ 32 ∧
      last.words.toList.take 95 ++
          [(last.carryA + last.carryB).toUInt32, ((last.carryA + last.carryB) >>> 32).toUInt32] =
        c.words.toList.take i ++
          Modulus.accumulate a q c.carryA c.carryB (b.toList.drop (i + 1))
            (c.words.toList.drop (i + 1)) (m.words.toList.drop (i + 1)) := by
  -- on the columns that are left
  generalize hleft : 95 - i = left
  induction left generalizing c i with
  | zero =>
    obtain rfl : i = 95 := by omega
    refine ⟨c, rfl, hA, hB, ?_⟩
    rw [List.drop_eq_nil_of_le (by rw [b.length_toList])]
    rfl
  | succ left ih =>
    have hi' : i < 95 := by omega
    have hcolumn : i + 1 < 96 := by omega
    obtain ⟨sumA, hsumA⟩ : ∃ sumA, c.carryA +
        (a * (b.getD (i + 1)).toUInt64 + (c.words.getD (i + 1)).toUInt64) = sumA := ⟨_, rfl⟩
    obtain ⟨sumB, hsumB⟩ : ∃ sumB, c.carryB +
        (q * (m.words.getD (i + 1)).toUInt64 + sumA.toUInt32.toUInt64) = sumB := ⟨_, rfl⟩
    obtain ⟨last, hfold, hlastA, hlastB, hwords⟩ :=
      ih (c := ⟨sumA >>> 32, sumB >>> 32, c.words.set i sumB.toUInt32⟩) (Modulus.toNat_high_lt _)
        (Modulus.toNat_high_lt _) (i := i + 1) (by omega) (by omega)
    -- the word written is behind those written before, and before those still to be read
    have htake : (c.words.set i sumB.toUInt32).toList.take (i + 1) =
        c.words.toList.take i ++ [sumB.toUInt32] :=
      take_succ_set (by rw [c.words.length_toList]; omega) _
    have hdrop : (c.words.set i sumB.toUInt32).toList.drop (i + 1 + 1) =
        c.words.toList.drop (i + 1 + 1) := by
      rw [Words.set, List.drop_set, if_pos (by omega)]
    refine ⟨last, ?_, hlastA, hlastB, ?_⟩
    · rw [List.range'_succ, List.foldlM_cons, column_eq_ok m ha hq b hA hB hi' hsumA hsumB,
        ok_bind, hfold]
    · rw [hwords, htake, hdrop, drop_eq_getD_cons b hcolumn, drop_eq_getD_cons c.words hcolumn,
        drop_eq_getD_cons m.words hcolumn, Modulus.accumulate, hsumA, hsumB, List.append_assoc,
        List.singleton_append]

/-! ## Products -/

-- One step of a product.
def multiplyAdd (m : Modulus) (d : Number) (a : Word) (b : Number) : Checked Number := do
  let sumA ← addProduct a.toUInt64 (← read b 0) (← read d 0)
  let q := (sumA.toUInt32 * m.inverse).toUInt64
  let sumB ← addProduct q (← read m.words 0) sumA.toUInt32
  let c ← (List.range' 1 95).foldlM (column m a.toUInt64 q b) ⟨sumA >>> 32, sumB >>> 32, d⟩
  let top ← addDouble c.carryA c.carryB
  let sum ← write c.words 95 top.toUInt32
  if top >>> 32 ≠ 0 then subtractOnce m sum else return sum

-- Leaving the top word out is writing the word below it.
theorem ofList_take_append (ws : Number) (w top : Word) :
    Words.ofList 96 (ws.toList.take 95 ++ [w, top]) = ws.set 95 w := by
  have hlength : (ws.toList.take 95).length = 95 :=
    List.length_take_of_le (by rw [ws.length_toList]; decide)
  have hset : (ws.set 95 w).toList = ws.toList.take 95 ++ [w] := by
    rw [← take_succ_set (by rw [ws.length_toList]; decide) w]
    exact (List.take_of_length_le (Words.length_toList _).le).symm
  ext1
  rw [Words.toList_ofList_of_le (by rw [List.length_append, hlength]; exact Nat.le_succ 96), hset,
    List.take_append, hlength, List.take_of_length_le (by rw [hlength]; decide)]
  rfl

-- A step of a product from the words of its sum: the one dropped, those kept and the one above.
theorem multiplyAdd_of_sum (m : Modulus) {d b words : Number} {a low : Word} {top : UInt64}
    (hall : Modulus.accumulate a.toUInt64 (m.quotient d a b).toUInt64 0 0 b.toList d.toList
        m.words.toList =
      low :: (words.toList.take 95 ++ [top.toUInt32, (top >>> 32).toUInt32])) :
    m.multiplyAdd d a b =
      if top >>> 32 = 0 then words.set 95 top.toUInt32
      else m.subtractOnce (words.set 95 top.toUInt32) := by
  have hlength : (words.toList.take 95).length = 95 :=
    List.length_take_of_le (by rw [words.length_toList]; decide)
  have habove : (low ::
      (words.toList.take 95 ++ [top.toUInt32, (top >>> 32).toUInt32])).getD 97 0 =
        (top >>> 32).toUInt32 := by
    rw [List.getD_cons_succ, List.getD_append_right _ _ _ _ (by omega), hlength]
    rfl
  have hcarry : (top >>> 32).toUInt32 = 0 ↔ top >>> 32 = 0 := by
    rw [← UInt32.toNat_inj, ← UInt64.toNat_inj, UInt64.toNat_toUInt32,
      Nat.mod_eq_of_lt (Modulus.toNat_high_lt top)]
    rfl
  rw [m.multiplyAdd_eq hall, habove, List.drop_succ_cons, List.drop_zero, ofList_take_append]
  simp only [hcarry]

theorem multiplyAdd_eq_ok (m : Modulus) (d : Number) (a : Word) (b : Number) :
    multiplyAdd m d a b = .ok (m.multiplyAdd d a b) := by
  obtain ⟨q, hq⟩ : ∃ q, m.quotient d a b = q := ⟨_, rfl⟩
  obtain ⟨sumA, hsumA⟩ : ∃ sumA,
      a.toUInt64 * (b.getD 0).toUInt64 + (d.getD 0).toUInt64 = sumA := ⟨_, rfl⟩
  obtain ⟨sumB, hsumB⟩ : ∃ sumB,
      q.toUInt64 * (m.words.getD 0).toUInt64 + sumA.toUInt32.toUInt64 = sumB := ⟨_, rfl⟩
  have ha64 : a.toUInt64.toNat < 2 ^ 32 := a.toNat_lt
  have hq64 : q.toUInt64.toNat < 2 ^ 32 := q.toNat_lt
  have hlow : sumA.toUInt32 * m.inverse = q := by
    rw [← hsumA, UInt64.toUInt32_add, UInt64.toUInt32_mul, UInt32.toUInt32_toUInt64,
      UInt32.toUInt32_toUInt64, UInt32.toUInt32_toUInt64, ← hq, Modulus.quotient]
  obtain ⟨c, hfold, hA, hB, hwords⟩ := foldlM_column m ha64 hq64 b
    (c := ⟨sumA >>> 32, sumB >>> 32, d⟩) (Modulus.toNat_high_lt _) (Modulus.toNat_high_lt _)
    (i := 0) (by decide)
  obtain ⟨top, htop⟩ : ∃ top, c.carryA + c.carryB = top := ⟨_, rfl⟩
  rw [htop] at hwords
  -- the word of column zero is dropped: no column is before it
  have hall : Modulus.accumulate a.toUInt64 (m.quotient d a b).toUInt64 0 0 b.toList d.toList
      m.words.toList =
        sumB.toUInt32 :: (c.words.toList.take 95 ++ [top.toUInt32, (top >>> 32).toUInt32]) := by
    have hzero (ws : Number) : ws.toList = ws.getD 0 :: ws.toList.drop (0 + 1) := by
      rw [← drop_eq_getD_cons ws (by decide), List.drop_zero]
    rw [hq, hwords, List.take_zero, List.nil_append, hzero b, hzero d, hzero m.words,
      Modulus.accumulate, UInt64.zero_add, UInt64.zero_add, hsumA, hsumB]
    rfl
  rw [multiplyAdd, read_of_lt _ (by decide), ok_bind, read_of_lt _ (by decide), ok_bind,
    addProduct_eq_ok ha64, ok_bind, hsumA, hlow, read_of_lt _ (by decide), ok_bind,
    addProduct_eq_ok hq64, ok_bind, hsumB, hfold, ok_bind,
    addDouble_of_lt (by omega), ok_bind, htop, write_of_lt _ _ (by decide), ok_bind,
    multiplyAdd_of_sum m hall]
  by_cases hfits : top >>> 32 = 0
  · rw [if_neg (not_not.mpr hfits), if_pos hfits, pure_eq_ok]
  · rw [if_pos hfits, if_neg hfits, subtractOnce_eq_ok]

def multiply (m : Modulus) (a b : Number) : Checked Number :=
  a.toList.foldlM (fun d w => multiplyAdd m d w b) (.zero 96)

def reduce (m : Modulus) (a : Number) : Checked Number := do
  let d ← multiplyAdd m (.zero 96) 1 a
  let d ← (List.replicate 95 0).foldlM (fun d w => multiplyAdd m d w a) d
  if Modulus.atLeast d.toList.reverse m.words.toList.reverse then subtractOnce m d else return d

theorem foldlM_multiplyAdd (m : Modulus) (ws : List Word) (d b : Number) :
    ws.foldlM (fun d w => multiplyAdd m d w b) d =
      .ok (ws.foldl (fun d w => m.multiplyAdd d w b) d) := by
  simp only [multiplyAdd_eq_ok]
  exact List.foldlM_pure

theorem multiply_eq_ok (m : Modulus) (a b : Number) : multiply m a b = .ok (m.multiply a b) :=
  foldlM_multiplyAdd m a.toList (.zero 96) b

theorem reduce_eq_ok (m : Modulus) (a : Number) : reduce m a = .ok (m.reduce a) := by
  rw [reduce, multiplyAdd_eq_ok, ok_bind, foldlM_multiplyAdd, ok_bind, Modulus.reduce,
    List.foldl_cons]
  split
  · rw [subtractOnce_eq_ok]
  · rfl

-- A signature raised to the public exponent.
def power (key : PublicKey) (signature : Number) : Checked Number := do
  let mul := multiply key.montgomery
  let square ← mul signature signature
  let product ← match key.exponent with
    | .three => mul square signature
    | .fermatFour => do
      let high ← (List.range 7).foldlM (fun x _ => do
        let y ← mul x x
        mul y y) square
      mul (← mul high high) signature
  reduce key.montgomery product

theorem power_eq_ok (key : PublicKey) (signature : Number) :
    power key signature = .ok (key.power signature) := by
  unfold power PublicKey.power
  simp only [multiply_eq_ok, ok_bind]
  cases key.exponent with
  | three => simp only [reduce_eq_ok]
  | fermatFour =>
    simp only [List.range_succ, List.range_zero, List.nil_append, List.cons_append,
      List.foldlM_cons, List.foldlM_nil, pure_eq_ok, ok_bind, reduce_eq_ok]

end Checked

end SignedFlash
