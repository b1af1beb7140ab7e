import SignedFlash.ScanCheck
import SignedFlash.Proofs.Words

/-!
# Checked operations

The operations that can stop a program: a word read or written outside its sequence, arithmetic
whose result does not fit, a draw from an empty range, a loop that stays where it is, an assertion
that fails. Here each of them says what it stops for, and beside it stands when it does not stop.
Sums that wrap around by intention, and parts of a buffer that may be missing, stop nothing.

Verification is written in these operations once more, with the loops, indices and sums of a
program on a machine. It never stops if it gives, on every input, what verification gives.
-/

namespace SignedFlash

-- The reasons for which a program stops.
inductive Trap where
  -- A word outside a sequence, or a part that is not inside it.
  | index
  -- A sum, difference or product that does not fit, or a shift by all bits of a word.
  | overflow
  -- A random number out of none.
  | emptyRange
  -- A loop that comes back to where it is.
  | noProgress
  | assertion (property : ScanProperty)
  deriving DecidableEq, Repr

abbrev Checked (α : Type) := Except Trap α

namespace Checked

variable {α β : Type} {n : Nat}

/-- What follows a step that gives a value. The cases are on what follows, so that the kernel need
not open it to see that both sides are the same. -/
@[simp] theorem ok_bind (a : α) (next : α → Checked β) : (Except.ok a >>= next) = next a := by
  cases h : next a <;> exact h

@[simp] theorem pure_eq_ok (a : α) : (pure a : Checked α) = .ok a := rfl

-- A loop whose steps never stop never stops.
theorem mapM_eq_ok {step : α → Checked β} {f : α → β} {places : List α}
    (hstep : ∀ a ∈ places, step a = .ok (f a)) : places.mapM step = .ok (places.map f) := by
  induction places with
  | nil => rfl
  | cons a places ih =>
    rw [List.mapM_cons, hstep a List.mem_cons_self, ok_bind,
      ih fun a ha => hstep a (List.mem_cons_of_mem _ ha), ok_bind, pure_eq_ok, List.map_cons]

theorem forM_eq_ok {step : α → Checked Unit} {places : List α}
    (hstep : ∀ a ∈ places, step a = .ok ()) : forM places step = .ok () := by
  induction places with
  | nil => rfl
  | cons a places ih =>
    rw [List.forM_cons, hstep a List.mem_cons_self, ok_bind]
    exact ih fun a ha => hstep a (List.mem_cons_of_mem _ ha)

/-! ## Sequences of words -/

def read (ws : Words n) (i : Nat) : Checked Word :=
  if i < n then .ok (ws.getD i) else .error .index

def write (ws : Words n) (i : Nat) (w : Word) : Checked (Words n) :=
  if i < n then .ok (ws.set i w) else .error .index

-- Changes the words from `start` up to, and without, `stop`.
def mapRange (ws : Words n) (start stop : Nat) (f : Word → Word) : Checked (Words n) :=
  if start ≤ stop ∧ stop ≤ n then
    .ok (ws.mapIdx fun i w => if start ≤ i ∧ i < stop then f w else w)
  else
    .error .index

theorem read_of_lt (ws : Words n) {i : Nat} (h : i < n) : read ws i = .ok (ws.getD i) := if_pos h

theorem write_of_lt (ws : Words n) (w : Word) {i : Nat} (h : i < n) :
    write ws i w = .ok (ws.set i w) := if_pos h

-- Reading a word and writing what becomes of it changes it in place.
theorem set_getD (ws : Words n) (f : Word → Word) (i : Nat) :
    ws.set i (f (ws.getD i)) = ws.modify i f := by
  apply Words.ext_getD
  intro j hj
  rw [Words.getD_set _ _ hj, Words.getD_modify _ _ hj]
  by_cases hij : i = j
  · rw [if_pos hij, if_pos hij, hij]
  · rw [if_neg hij, if_neg hij]

-- The words up to one that was written.
theorem take_succ_set {l : List Word} {i : Nat} (h : i < l.length) (w : Word) :
    (l.set i w).take (i + 1) = l.take i ++ [w] := by
  have hi : i < (l.set i w).length := by rwa [List.length_set]
  rw [← List.take_append_getElem hi, List.getElem_set_self, List.take_set_of_le le_rfl]

/-! ## Arithmetic -/

def addWord (a b : Word) : Checked Word :=
  if a.toNat + b.toNat < 2 ^ 32 then .ok (a + b) else .error .overflow

def shiftWord (w : Word) (count : Nat) : Checked Word :=
  if count < 32 then .ok (w <<< UInt32.ofNat count) else .error .overflow

def addDouble (a b : UInt64) : Checked UInt64 :=
  if a.toNat + b.toNat < 2 ^ 64 then .ok (a + b) else .error .overflow

def mulDouble (a b : UInt64) : Checked UInt64 :=
  if a.toNat * b.toNat < 2 ^ 64 then .ok (a * b) else .error .overflow

-- A number of 64 bits with a sign.
def signed (k : Int) : Checked Int :=
  if -2 ^ 63 ≤ k ∧ k < 2 ^ 63 then .ok k else .error .overflow

-- Offsets and lengths.
def addOffset (a b : Nat) : Checked Nat :=
  if a + b ≤ maxOffset then .ok (a + b) else .error .overflow

def subOffset (a b : Nat) : Checked Nat :=
  if b ≤ a then .ok (a - b) else .error .overflow

def mulOffset (a b : Nat) : Checked Nat :=
  if a * b ≤ maxOffset then .ok (a * b) else .error .overflow

theorem addWord_of_lt {a b : Word} (h : a.toNat + b.toNat < 2 ^ 32) : addWord a b = .ok (a + b) :=
  if_pos h

theorem shiftWord_of_lt (w : Word) {count : Nat} (h : count < 32) :
    shiftWord w count = .ok (w <<< UInt32.ofNat count) := if_pos h

theorem addDouble_of_lt {a b : UInt64} (h : a.toNat + b.toNat < 2 ^ 64) :
    addDouble a b = .ok (a + b) := if_pos h

theorem mulDouble_of_lt {a b : UInt64} (h : a.toNat * b.toNat < 2 ^ 64) :
    mulDouble a b = .ok (a * b) := if_pos h

theorem signed_of_lt {k : Int} (hlow : -2 ^ 63 ≤ k) (hhigh : k < 2 ^ 63) : signed k = .ok k :=
  if_pos ⟨hlow, hhigh⟩

theorem addOffset_of_le {a b : Nat} (h : a + b ≤ maxOffset) : addOffset a b = .ok (a + b) :=
  if_pos h

theorem subOffset_of_le {a b : Nat} (h : b ≤ a) : subOffset a b = .ok (a - b) := if_pos h

theorem mulOffset_of_le {a b : Nat} (h : a * b ≤ maxOffset) : mulOffset a b = .ok (a * b) :=
  if_pos h

/-! ## Random numbers and assertions -/

def below (source : RandomSource) (n : Nat) : Checked (Nat × RandomSource) :=
  if 0 < n then .ok (source.below n) else .error .emptyRange

def assert (condition : Bool) (property : ScanProperty) : Checked Unit :=
  if condition then .ok () else .error (.assertion property)

theorem below_of_pos (source : RandomSource) {n : Nat} (h : 0 < n) :
    below source n = .ok (source.below n) := if_pos h

theorem assert_of {condition : Bool} (h : condition = true) (property : ScanProperty) :
    assert condition property = .ok () := if_pos h

end Checked

end SignedFlash
