import SignedFlash.Rsa.Montgomery
import SignedFlash.Proofs.Numbers
import Mathlib.Data.Nat.ModEq
import Mathlib.Tactic.LinearCombination

/-!
# Products without division

The sums of a product fit into the words that hold them, so that each step of a product adds exactly
`a * b` and a multiple of the modulus, and the word it drops is zero. A number that leaves the 96
words is brought back by taking the modulus away once. All this needs nothing of the factors: they
may well be greater than the modulus.
-/

namespace SignedFlash

/-- The number that products are divided by. -/
def radix : Nat := 2 ^ (32 * 96)

theorem radix_pos : 0 < radix := pow_pos Nat.two_pos _

theorem Words.toNat_lt_radix (x : Number) : x.toNat < radix := x.toNat_lt

namespace Modulus

/-! ## Sums of columns -/

-- The product of two words and two words more are together less than `2 ^ 64`.
theorem toNat_column {carry a : UInt64} (hcarry : carry.toNat < 2 ^ 32) (ha : a.toNat < 2 ^ 32)
    (w d : Word) :
    (carry + (a * w.toUInt64 + d.toUInt64)).toNat =
      carry.toNat + (a.toNat * w.toNat + d.toNat) := by
  have hd : d.toNat < 2 ^ 32 := d.toNat_lt
  have hw : w.toNat < 2 ^ 32 := w.toNat_lt
  have hproduct : a.toNat * w.toNat ≤ (2 ^ 32 - 1) * (2 ^ 32 - 1) :=
    Nat.mul_le_mul (by omega) (by omega)
  rw [UInt64.toNat_add, UInt64.toNat_add, UInt64.toNat_mul, UInt32.toNat_toUInt64,
    UInt32.toNat_toUInt64]
  omega

theorem toNat_high (x : UInt64) : (x >>> 32).toNat = x.toNat / 2 ^ 32 := by
  rw [UInt64.toNat_shiftRight, Nat.shiftRight_eq_div_pow]
  rfl

theorem toNat_eq_low_add_high (x : UInt64) :
    x.toNat = x.toUInt32.toNat + 2 ^ 32 * (x >>> 32).toNat := by
  rw [UInt64.toNat_toUInt32, toNat_high, Nat.mod_add_div]

theorem toNat_high_lt (x : UInt64) : (x >>> 32).toNat < 2 ^ 32 := by
  have hx : x.toNat < 2 ^ 64 := x.toNat_lt
  have h := toNat_eq_low_add_high x
  omega

theorem length_accumulate (a q carryA carryB : UInt64) {b d n : List Word}
    (hd : d.length = b.length) (hn : n.length = b.length) :
    (accumulate a q carryA carryB b d n).length = b.length + 2 := by
  induction b generalizing carryA carryB d n with
  | nil => rfl
  | cons w b ih =>
    obtain ⟨wd, d, rfl⟩ := List.exists_cons_of_length_eq_add_one hd
    obtain ⟨wn, n, rfl⟩ := List.exists_cons_of_length_eq_add_one hn
    rw [accumulate, List.length_cons, ih _ _ (Nat.succ.inj hd) (Nat.succ.inj hn),
      List.length_cons]

/-- Nothing is lost on the way: the sum is `d + a * b + q * n`, and the carries. -/
theorem numberOfWords_accumulate {a q : UInt64} (ha : a.toNat < 2 ^ 32) (hq : q.toNat < 2 ^ 32)
    {carryA carryB : UInt64} (hA : carryA.toNat < 2 ^ 32) (hB : carryB.toNat < 2 ^ 32)
    {b d n : List Word} (hd : d.length = b.length) (hn : n.length = b.length) :
    numberOfWords (accumulate a q carryA carryB b d n) =
      carryA.toNat + carryB.toNat + numberOfWords d + a.toNat * numberOfWords b +
        q.toNat * numberOfWords n := by
  -- on the columns, with whatever the column before carried over
  induction b generalizing carryA carryB d n with
  | nil =>
    obtain rfl := List.eq_nil_of_length_eq_zero hd
    obtain rfl := List.eq_nil_of_length_eq_zero hn
    have htop : (carryA + carryB).toNat = carryA.toNat + carryB.toNat := by
      rw [UInt64.toNat_add]
      omega
    change numberOfWords [(carryA + carryB).toUInt32, ((carryA + carryB) >>> 32).toUInt32] = _
    rw [numberOfWords_cons, numberOfWords_cons, numberOfWords, UInt64.toNat_toUInt32,
      UInt64.toNat_toUInt32, toNat_high, htop]
    omega
  | cons w b ih =>
    obtain ⟨wd, d, rfl⟩ := List.exists_cons_of_length_eq_add_one hd
    obtain ⟨wn, n, rfl⟩ := List.exists_cons_of_length_eq_add_one hn
    rw [accumulate]
    generalize hsumA : carryA + (a * w.toUInt64 + wd.toUInt64) = sumA
    generalize hsumB : carryB + (q * wn.toUInt64 + sumA.toUInt32.toUInt64) = sumB
    have hcolumnA := toNat_column hA ha w wd
    have hcolumnB := toNat_column hB hq wn sumA.toUInt32
    rw [hsumA, toNat_eq_low_add_high sumA] at hcolumnA
    rw [hsumB, toNat_eq_low_add_high sumB] at hcolumnB
    have hrest := ih (toNat_high_lt sumA) (toNat_high_lt sumB) (Nat.succ.inj hd) (Nat.succ.inj hn)
    rw [numberOfWords_cons, numberOfWords_cons, numberOfWords_cons, numberOfWords_cons, hrest,
      Nat.mul_add a.toNat, Nat.mul_add q.toNat, Nat.mul_left_comm a.toNat,
      Nat.mul_left_comm q.toNat]
    omega

/-! ## Differences -/

/-- Taking a number away borrows at the top exactly if it is the greater one. -/
theorem numberOfWords_subtract (borrow : Bool) {d n : List Word} (h : n.length = d.length) :
    numberOfWords (subtract borrow d n) + numberOfWords n + borrow.toNat =
      numberOfWords d +
        if numberOfWords d < numberOfWords n + borrow.toNat then 2 ^ (32 * d.length) else 0 := by
  induction d generalizing borrow n with
  | nil =>
    obtain rfl := List.eq_nil_of_length_eq_zero h
    cases borrow <;> rfl
  | cons wd d ih =>
    obtain ⟨wn, n, rfl⟩ := List.exists_cons_of_length_eq_add_one h
    have hd : wd.toNat < 2 ^ 32 := wd.toNat_lt
    have hn : wn.toNat < 2 ^ 32 := wn.toNat_lt
    have hrest := ih (decide (wd.toNat < wn.toNat + borrow.toNat)) (Nat.succ.inj h)
    have hbit : (decide (wd.toNat < wn.toNat + borrow.toNat)).toNat =
        if wd.toNat < wn.toNat + borrow.toNat then 1 else 0 := by
      split
      · rename_i hlt
        rw [decide_eq_true hlt, Bool.toNat_true]
      · rename_i hge
        rw [decide_eq_false hge, Bool.toNat_false]
    have hword : (wd - wn - borrow.toUInt32).toNat + wn.toNat + borrow.toNat =
        wd.toNat + if wd.toNat < wn.toNat + borrow.toNat then 2 ^ 32 else 0 := by
      have hborrow : borrow.toUInt32.toNat = borrow.toNat := by cases borrow <;> rfl
      have hle : borrow.toNat ≤ 1 := Bool.toNat_le borrow
      rw [UInt32.toNat_sub, UInt32.toNat_sub, hborrow]
      split <;> omega
    rw [hbit] at hrest
    rw [subtract, numberOfWords_cons, numberOfWords_cons, numberOfWords_cons, List.length_cons,
      Nat.mul_succ, Nat.pow_add]
    generalize numberOfWords (subtract _ d n) = rest at hrest ⊢
    generalize numberOfWords d = x at hrest ⊢
    generalize numberOfWords n = y at hrest ⊢
    generalize 2 ^ (32 * d.length) = top at hrest ⊢
    split at hrest <;> split at hrest <;> split at hword <;> split <;> omega

theorem length_subtract (borrow : Bool) {d n : List Word} (h : n.length = d.length) :
    (subtract borrow d n).length = d.length := by
  induction d generalizing borrow n with
  | nil =>
    obtain rfl := List.eq_nil_of_length_eq_zero h
    rfl
  | cons wd d ih =>
    obtain ⟨wn, n, rfl⟩ := List.exists_cons_of_length_eq_add_one h
    rw [subtract, List.length_cons, ih _ (Nat.succ.inj h), List.length_cons]

-- From the highest word down, the first difference decides.
theorem atLeast_reverse {a n : List Word} (h : a.length = n.length) :
    atLeast a.reverse n.reverse = decide (numberOfWords n ≤ numberOfWords a) := by
  -- on the words from the highest down, so that those below are what is left
  have hdown (as ns : List Word) (hlength : as.length = ns.length) :
      atLeast as ns = decide (numberOfWords ns.reverse ≤ numberOfWords as.reverse) := by
    induction as generalizing ns with
    | nil =>
      obtain rfl := List.eq_nil_of_length_eq_zero hlength.symm
      rfl
    | cons a as ih =>
      obtain ⟨n, ns, rfl⟩ := List.exists_cons_of_length_eq_add_one hlength.symm
      have hrest : as.length = ns.length := Nat.succ.inj hlength
      have ha := numberOfWords_lt as.reverse
      have hn := numberOfWords_lt ns.reverse
      rw [List.reverse_cons, List.reverse_cons, numberOfWords_append, numberOfWords_append,
        numberOfWords_cons, numberOfWords_cons, numberOfWords, Nat.mul_zero, Nat.add_zero,
        Nat.add_zero]
      rw [List.length_reverse] at ha hn ⊢
      rw [List.length_reverse, ← hrest]
      rw [← hrest] at hn
      by_cases hword : a = n
      · subst hword
        rw [atLeast, if_pos rfl, ih ns hrest]
        simp only [Nat.add_le_add_iff_right]
      · have hne : a.toNat ≠ n.toNat := fun heq => hword (UInt32.toNat_inj.mp heq)
        rw [atLeast, if_neg hword, decide_eq_decide, UInt32.lt_iff_toNat_lt]
        generalize 2 ^ (32 * as.length) = top at ha hn ⊢
        constructor
        · intro hlt
          have htop : top * (n.toNat + 1) ≤ top * a.toNat := Nat.mul_le_mul_left _ hlt
          rw [Nat.mul_succ] at htop
          omega
        · intro hle
          by_contra hge
          have htop : top * (a.toNat + 1) ≤ top * n.toNat := Nat.mul_le_mul_left _ (by omega)
          rw [Nat.mul_succ] at htop
          omega
  rw [hdown _ _ (by rw [List.length_reverse, List.length_reverse, h]), List.reverse_reverse,
    List.reverse_reverse]

/-! ## One step of a product -/

variable (m : Modulus)

theorem toNat_subtractOnce (d : Number) :
    (m.subtractOnce d).toNat + m.words.toNat =
      d.toNat + if d.toNat < m.words.toNat then radix else 0 := by
  have hlength : m.words.toList.length = d.toList.length :=
    m.words.length_toList.trans d.length_toList.symm
  have h := numberOfWords_subtract false hlength
  have hwords : (m.subtractOnce d).toNat =
      numberOfWords (subtract false d.toList m.words.toList) := by
    rw [subtractOnce, Words.toNat,
      Words.toList_ofList ((length_subtract false hlength).trans d.length_toList)]
  rw [hwords]
  rwa [d.length_toList] at h

/-- The multiple of the modulus that a step adds. -/
def quotient (d : Number) (a : Word) (b : Number) : Word :=
  (a * b.getD 0 + d.getD 0) * m.inverse

/-- What a step leaves before it is brought back below `2 ^ 3072`. -/
def stepValue (d : Number) (a : Word) (b : Number) : Nat :=
  (d.toNat + a.toNat * b.toNat + (m.quotient d a b).toNat * m.words.toNat) / 2 ^ 32

theorem stepValue_lt (d : Number) (a : Word) (b : Number) :
    m.stepValue d a b < radix + m.words.toNat := by
  have hd := d.toNat_lt_radix
  have hb := b.toNat_lt_radix
  have ha : a.toNat < 2 ^ 32 := a.toNat_lt
  have hq : (m.quotient d a b).toNat < 2 ^ 32 := (m.quotient d a b).toNat_lt
  have hab : a.toNat * b.toNat ≤ (2 ^ 32 - 1) * (radix - 1) :=
    Nat.mul_le_mul (by omega) (by omega)
  have hqn : (m.quotient d a b).toNat * m.words.toNat ≤ (2 ^ 32 - 1) * m.words.toNat :=
    Nat.mul_le_mul_right _ (by omega)
  rw [stepValue, Nat.div_lt_iff_lt_mul (by decide)]
  omega

theorem multiplyAdd_eq {d b : Number} {a : Word} {all : List Word}
    (hall : accumulate a.toUInt64 (m.quotient d a b).toUInt64 0 0 b.toList d.toList
      m.words.toList = all) :
    m.multiplyAdd d a b =
      if all.getD 97 0 = 0 then .ofList 96 (all.drop 1)
      else m.subtractOnce (.ofList 96 (all.drop 1)) := by
  subst hall
  rfl

/-- A step of a product takes the modulus away only if the number would not fit otherwise. Nothing
is assumed of the modulus. -/
theorem toNat_multiplyAdd (d : Number) (a : Word) (b : Number) :
    (m.multiplyAdd d a b).toNat =
      if m.stepValue d a b < radix then m.stepValue d a b
      else m.stepValue d a b - m.words.toNat := by
  have hlt := m.stepValue_lt d a b
  have hn := m.words.toNat_lt_radix
  -- the sum has 98 words: the one dropped, the 96 kept and the top one
  obtain ⟨all, hall⟩ : ∃ all, accumulate a.toUInt64 (m.quotient d a b).toUInt64 0 0 b.toList
      d.toList m.words.toList = all := ⟨_, rfl⟩
  have hlength : all.length = 98 := by
    rw [← hall, length_accumulate _ _ _ _ (d.length_toList.trans b.length_toList.symm)
      (m.words.length_toList.trans b.length_toList.symm), b.length_toList]
  have hvalue : numberOfWords (all.drop 1) = m.stepValue d a b := by
    have hcarry : (0 : UInt64).toNat < 2 ^ 32 := by decide
    have hsum := numberOfWords_accumulate (a := a.toUInt64) (q := (m.quotient d a b).toUInt64)
      a.toNat_lt (m.quotient d a b).toNat_lt hcarry hcarry
      (d.length_toList.trans b.length_toList.symm)
      (m.words.length_toList.trans b.length_toList.symm)
    rw [hall, UInt32.toNat_toUInt64, UInt32.toNat_toUInt64] at hsum
    rw [numberOfWords_drop (by omega), hsum, stepValue]
    change (0 + 0 + d.toNat + a.toNat * b.toNat + (m.quotient d a b).toNat * m.words.toNat) /
      2 ^ 32 = _
    rw [Nat.zero_add]
  have hkept : (Words.ofList 96 (all.drop 1)).toNat = m.stepValue d a b % radix := by
    rw [Words.toNat_ofList (by rw [List.length_drop]; omega), hvalue, radix]
  have htop : (all.getD 97 0).toNat = m.stepValue d a b / radix := by
    have hlast : all.drop 97 = [all.getD 97 0] := by
      rw [List.drop_eq_getElem_cons (by omega), List.drop_of_length_le (by omega),
        List.getD_eq_getElem]
    have hbound : 96 ≤ (all.drop 1).length := by
      rw [List.length_drop]
      omega
    have hdrop := numberOfWords_drop hbound
    rw [List.drop_drop, hvalue, hlast, numberOfWords_cons, numberOfWords] at hdrop
    rw [radix, ← hdrop, Nat.mul_zero, Nat.add_zero]
  rw [m.multiplyAdd_eq hall]
  by_cases hfits : m.stepValue d a b < radix
  · have hzero : all.getD 97 0 = 0 := by
      apply UInt32.toNat_inj.mp
      rw [htop, Nat.div_eq_of_lt hfits]
      rfl
    rw [if_pos hzero, if_pos hfits, hkept, Nat.mod_eq_of_lt hfits]
  · -- less than the modulus is left in the 96 words, so that the difference borrows from the top
    have hdiv : m.stepValue d a b / radix = 1 :=
      Nat.div_eq_of_lt_le (by omega) (by omega)
    have hmod : m.stepValue d a b % radix + radix = m.stepValue d a b := by
      have h := Nat.mod_add_div (m.stepValue d a b) radix
      rw [hdiv] at h
      omega
    have hone : all.getD 97 0 ≠ 0 := by
      intro hzero
      rw [hzero, hdiv] at htop
      exact absurd htop (by decide)
    have hdifference := m.toNat_subtractOnce (.ofList 96 (all.drop 1))
    rw [hkept, if_pos (by omega)] at hdifference
    rw [if_neg hone, if_neg hfits]
    omega

/-! ## Exact steps -/

/-- Whether a modulus comes with the inverse that its steps need. -/
def IsConsistent : Prop := m.inverse * m.words.getD 0 = 0xffffffff

instance : Decidable m.IsConsistent := inferInstanceAs (Decidable (_ = _))

variable {m}

-- The dropped word is zero.
theorem IsConsistent.stepValue_mul (h : m.IsConsistent) (d : Number) (a : Word) (b : Number) :
    2 ^ 32 * m.stepValue d a b =
      d.toNat + a.toNat * b.toNat + (m.quotient d a b).toNat * m.words.toNat := by
  have hlow (x : Number) : x.toNat ≡ (x.getD 0).toNat [MOD 2 ^ 32] := by
    obtain ⟨w, ws, hws⟩ := List.exists_cons_of_length_eq_add_one x.length_toList
    rw [Words.toNat, Words.getD, hws, List.getD_cons_zero, Nat.ModEq, numberOfWords_mod,
      Nat.mod_eq_of_lt w.toNat_lt]
  have hadd (x y : Word) : (x + y).toNat ≡ x.toNat + y.toNat [MOD 2 ^ 32] := by
    rw [UInt32.toNat_add]
    exact Nat.mod_modEq _ _
  have hmul (x y : Word) : (x * y).toNat ≡ x.toNat * y.toNat [MOD 2 ^ 32] := by
    rw [UInt32.toNat_mul]
    exact Nat.mod_modEq _ _
  have hwords : d.getD 0 + a * b.getD 0 + m.quotient d a b * m.words.getD 0 = 0 := by
    have hinverse : m.inverse * m.words.getD 0 = 0xffffffff := h
    unfold quotient
    rw [UInt32.mul_assoc, hinverse]
    grind
  have hsum : d.toNat + a.toNat * b.toNat + (m.quotient d a b).toNat * m.words.toNat ≡
      0 [MOD 2 ^ 32] := by
    calc d.toNat + a.toNat * b.toNat + (m.quotient d a b).toNat * m.words.toNat
      _ ≡ (d.getD 0).toNat + a.toNat * (b.getD 0).toNat +
          (m.quotient d a b).toNat * (m.words.getD 0).toNat [MOD 2 ^ 32] :=
        ((hlow d).add ((hlow b).mul_left _)).add ((hlow m.words).mul_left _)
      _ ≡ (d.getD 0).toNat + (a * b.getD 0).toNat +
          (m.quotient d a b * m.words.getD 0).toNat [MOD 2 ^ 32] :=
        ((hmul _ _).symm.add_left _).add (hmul _ _).symm
      _ ≡ (d.getD 0 + a * b.getD 0 + m.quotient d a b * m.words.getD 0).toNat [MOD 2 ^ 32] :=
        (((hadd _ _).trans ((hadd _ _).add_right _))).symm
      _ = 0 := by rw [hwords]; rfl
  rw [stepValue]
  exact Nat.mul_div_cancel' (Nat.modEq_zero_iff_dvd.mp hsum)

/-- Whether `d` is the quotient of a number by `2 ^ (32 * k)`, up to multiples of the modulus, of
which fewer than `2 ^ (32 * k)` were added before. -/
def IsQuotient (m : Modulus) (k value : Nat) (d : Number) : Prop :=
  ∃ added taken, added < 2 ^ (32 * k) ∧
    2 ^ (32 * k) * d.toNat + taken * m.words.toNat = value + added * m.words.toNat

theorem IsConsistent.isQuotient_multiplyAdd (h : m.IsConsistent) (d : Number) (a : Word)
    (b : Number) : m.IsQuotient 1 (d.toNat + a.toNat * b.toNat) (m.multiplyAdd d a b) := by
  have hstep := h.stepValue_mul d a b
  have hvalue := m.toNat_multiplyAdd d a b
  have hn := m.words.toNat_lt_radix
  refine ⟨(m.quotient d a b).toNat, if m.stepValue d a b < radix then 0 else 2 ^ 32,
    (m.quotient d a b).toNat_lt, ?_⟩
  rw [← hstep, hvalue]
  split
  · omega
  · rw [Nat.mul_sub]
    have hle : 2 ^ 32 * m.words.toNat ≤ 2 ^ 32 * m.stepValue d a b :=
      Nat.mul_le_mul_left _ (by omega)
    omega

-- Steps follow each other as the words of the first factor do.
theorem IsConsistent.isQuotient_foldl (h : m.IsConsistent) (b : Number) (ws : List Word)
    (d : Number) :
    m.IsQuotient ws.length (d.toNat + numberOfWords ws * b.toNat)
      (ws.foldl (fun d w => m.multiplyAdd d w b) d) := by
  -- on the words, each of which is one step, from whatever the steps before left
  induction ws generalizing d with
  | nil => exact ⟨0, 0, Nat.one_pos, by simp [numberOfWords]⟩
  | cons w ws ih =>
    obtain ⟨added, taken, hadded, hfirst⟩ := h.isQuotient_multiplyAdd d w b
    obtain ⟨added', taken', hadded', hrest⟩ := ih (m.multiplyAdd d w b)
    refine ⟨added + 2 ^ 32 * added', taken + 2 ^ 32 * taken', ?_, ?_⟩
    · rw [List.length_cons, Nat.mul_succ, Nat.pow_add]
      omega
    · rw [List.foldl_cons, List.length_cons, numberOfWords_cons, Nat.mul_succ, Nat.pow_add]
      linear_combination hfirst + 2 ^ 32 * hrest

/-! ## Products -/

theorem IsQuotient.modEq {k value : Nat} {d : Number} (h : m.IsQuotient k value d) :
    2 ^ (32 * k) * d.toNat ≡ value [MOD m.words.toNat] := by
  obtain ⟨added, taken, -, hvalue⟩ := h
  calc 2 ^ (32 * k) * d.toNat
    _ ≡ 2 ^ (32 * k) * d.toNat + taken * m.words.toNat [MOD m.words.toNat] :=
      Nat.ModEq.symm (Nat.add_mul_mod_self_right _ _ _)
    _ ≡ value + added * m.words.toNat [MOD m.words.toNat] := congrArg (· % _) hvalue
    _ ≡ value [MOD m.words.toNat] := Nat.add_mul_mod_self_right _ _ _

/-- What the steps of a reduction leave, before the last difference. -/
def unreduced (m : Modulus) (a : Number) : Number :=
  (1 :: List.replicate 95 0).foldl (fun d w => m.multiplyAdd d w a) (.zero 96)

theorem toNat_reduce (m : Modulus) (a : Number) :
    (m.reduce a).toNat =
      if m.words.toNat ≤ (m.unreduced a).toNat then (m.unreduced a).toNat - m.words.toNat
      else (m.unreduced a).toNat := by
  have hdifference := m.toNat_subtractOnce (m.unreduced a)
  have hreduce : m.reduce a =
      if atLeast (m.unreduced a).toList.reverse m.words.toList.reverse then
        m.subtractOnce (m.unreduced a)
      else m.unreduced a := rfl
  have hcompare : atLeast (m.unreduced a).toList.reverse m.words.toList.reverse =
      decide (m.words.toNat ≤ (m.unreduced a).toNat) :=
    atLeast_reverse ((m.unreduced a).length_toList.trans m.words.length_toList.symm)
  simp only [hreduce, hcompare, decide_eq_true_iff]
  split
  · rw [if_neg (by omega)] at hdifference
    omega
  · rfl

namespace IsConsistent

/-- A product is the product of the factors divided by `2 ^ 3072`, modulo the modulus. -/
theorem multiply_modEq (h : m.IsConsistent) (a b : Number) :
    radix * (m.multiply a b).toNat ≡ a.toNat * b.toNat [MOD m.words.toNat] := by
  have hproduct := (h.isQuotient_foldl b a.toList (.zero 96)).modEq
  rwa [a.length_toList, Words.toNat_zero, Nat.zero_add] at hproduct

theorem isQuotient_unreduced (h : m.IsConsistent) (a : Number) :
    m.IsQuotient 96 a.toNat (m.unreduced a) := by
  have hone : numberOfWords (1 :: List.replicate 95 0) = 1 := by
    rw [numberOfWords_cons, numberOfWords_replicate_zero]
    rfl
  have hsteps := h.isQuotient_foldl a (1 :: List.replicate 95 0) (.zero 96)
  rwa [hone, Words.toNat_zero, Nat.zero_add, Nat.one_mul] at hsteps

-- The steps add the modulus fewer than `2 ^ 3072` times, so that no more than the modulus is left.
theorem toNat_unreduced_le (h : m.IsConsistent) (a : Number) :
    (m.unreduced a).toNat ≤ m.words.toNat := by
  obtain ⟨added, taken, hadded, hvalue⟩ := h.isQuotient_unreduced a
  rw [← radix] at hadded hvalue
  have ha := a.toNat_lt_radix
  have hsum : added * m.words.toNat ≤ (radix - 1) * m.words.toNat :=
    Nat.mul_le_mul_right _ (by omega)
  have hradix : (radix - 1) * m.words.toNat + m.words.toNat = radix * m.words.toNat := by
    rw [← Nat.succ_mul, Nat.succ_eq_add_one, Nat.sub_add_cancel radix_pos]
  by_contra hgreater
  have hproduct : radix * (m.words.toNat + 1) ≤ radix * (m.unreduced a).toNat :=
    Nat.mul_le_mul_left _ (by omega)
  rw [Nat.mul_succ] at hproduct
  omega

theorem toNat_reduce_lt (h : m.IsConsistent) (hpos : 0 < m.words.toNat) (a : Number) :
    (m.reduce a).toNat < m.words.toNat := by
  have hle := h.toNat_unreduced_le a
  rw [toNat_reduce]
  split <;> omega

/-- A reduction divides by `2 ^ 3072`, modulo the modulus. -/
theorem reduce_modEq (h : m.IsConsistent) (a : Number) :
    radix * (m.reduce a).toNat ≡ a.toNat [MOD m.words.toNat] := by
  have hreduce : (m.reduce a).toNat ≡ (m.unreduced a).toNat [MOD m.words.toNat] := by
    rw [toNat_reduce]
    split
    · rename_i hle
      exact (Nat.mod_eq_sub_mod hle).symm
    · rfl
  exact (hreduce.mul_left radix).trans (h.isQuotient_unreduced a).modEq

end IsConsistent

end Modulus

end SignedFlash
