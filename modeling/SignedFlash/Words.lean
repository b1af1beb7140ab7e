import SignedFlash.Word

/-!
# Sequences of words

`Words n` holds exactly `n` words, lowest first: the shape of every array in a header, of a key,
of a fuse bank and of a digest.
-/

namespace SignedFlash

@[ext] structure Words (n : Nat) where
  toList : List Word
  length_toList : toList.length = n
  deriving DecidableEq

/-- A SHA-256 digest; word `i` holds digest bytes `4 * i` to `4 * i + 3`, lowest first. -/
abbrev Digest := Words 8

abbrev Number := Words 96

namespace Words

variable {m n : Nat}

instance : GetElem (Words n) Nat Word (fun _ i => i < n) where
  getElem ws i h := ws.toList.get ⟨i, by rw [ws.length_toList]; exact h⟩

/-- The first `n` words of a list, with zeros for those it lacks, as a list. -/
def firstWords : (n : Nat) → List Word → List Word
  | 0, _ => []
  | n + 1, [] => 0 :: firstWords n []
  | n + 1, w :: ws => w :: firstWords n ws

theorem length_firstWords (l : List Word) : (firstWords n l).length = n := by
  induction n generalizing l with
  | zero => rfl
  | succ n ih => cases l <;> simp [firstWords, ih]

theorem firstWords_length (l : List Word) : firstWords l.length l = l := by
  induction l with
  | nil => rfl
  | cons w ws ih => simp [firstWords, ih]

-- The first `n` words of a list, with zeros for those it lacks.
def ofList (n : Nat) (l : List Word) : Words n := ⟨firstWords n l, length_firstWords l⟩

def replicate (n : Nat) (w : Word) : Words n where
  toList := List.replicate n w
  length_toList := by simp

def zero (n : Nat) : Words n := replicate n 0

instance : Inhabited (Words n) := ⟨zero n⟩

/-- The sequence of words that spells a number, less what does not fit. -/
def ofNat (n k : Nat) : Words n := ⟨wordsOfNumber n k, length_wordsOfNumber n k⟩

def getD (ws : Words n) (i : Nat) : Word := ws.toList.getD i 0

-- The `n` words from index `start` on, with zeros outside.
def slice (ws : Words m) (start n : Nat) : Words n := ofList n (ws.toList.drop start)

def map (f : Word → Word) (ws : Words n) : Words n where
  toList := ws.toList.map f
  length_toList := by simp [ws.length_toList]

def mapIdx (f : Nat → Word → Word) (ws : Words n) : Words n where
  toList := ws.toList.mapIdx f
  length_toList := by simp [ws.length_toList]

def zipWith (f : Word → Word → Word) (a b : Words n) : Words n where
  toList := List.zipWith f a.toList b.toList
  length_toList := by simp [a.length_toList, b.length_toList]

def xor (a b : Words n) : Words n := zipWith (· ^^^ ·) a b

-- Changes word `i`; nothing changes if `i` is outside.
def modify (ws : Words n) (i : Nat) (f : Word → Word) : Words n where
  toList := ws.toList.modify i f
  length_toList := by simp [ws.length_toList]

-- Replaces word `i`; nothing changes if `i` is outside.
def set (ws : Words n) (i : Nat) (w : Word) : Words n where
  toList := ws.toList.set i w
  length_toList := by simp [ws.length_toList]

def append (a : Words m) (b : Words n) : Words (m + n) where
  toList := a.toList ++ b.toList
  length_toList := by simp [a.length_toList, b.length_toList]

-- The bytes of the words, each lowest byte first.
def bytes (ws : Words n) : Bytes := bytesOfWords ws.toList

def toNat (ws : Words n) : Nat := numberOfWords ws.toList

theorem toList_ofList {l : List Word} (h : l.length = n) : (ofList n l).toList = l := by
  subst h
  exact firstWords_length l

@[simp] theorem ofList_toList (ws : Words n) : ofList n ws.toList = ws := by
  ext1
  exact toList_ofList ws.length_toList

theorem xor_xor_cancel_right (a b : Words n) : (a.xor b).xor b = a := by
  have h : ∀ x y : List Word, x.length = y.length →
      List.zipWith (· ^^^ ·) (List.zipWith (· ^^^ ·) x y) y = x := by
    intro x
    induction x with
    | nil => simp
    | cons v x ih =>
      intro y hy
      cases y with
      | nil => simp at hy
      | cons w y =>
        have hy' : x.length = y.length := by simpa using hy
        rw [List.zipWith_cons_cons, List.zipWith_cons_cons, ih y hy', UInt32.xor_assoc,
          UInt32.xor_self, UInt32.xor_zero]
  ext1
  exact h _ _ (a.length_toList.trans b.length_toList.symm)

theorem length_bytes (ws : Words n) : ws.bytes.length = 4 * n := by
  rw [bytes, length_bytesOfWords, ws.length_toList]

end Words

end SignedFlash
