import SignedFlash.Toml.Lexical
import Mathlib.Data.List.Basic
import Mathlib.Data.Option.Basic

/-!
# What readers take

The laws of the readers, each on the text before it: what a reader takes off the front, or that it
refuses. A reader that takes all it can is stopped by what comes next, so its law says what may.
-/

namespace SignedFlash.Toml

namespace Reader

variable {α β : Type}

@[simp] theorem bind_apply (p : Reader α) (f : α → Reader β) (text : List Char) :
    (p >>= f) text = (p text).bind fun r => f r.1 r.2 := rfl

@[simp] theorem pure_apply (a : α) (text : List Char) :
    (pure a : Reader α) text = some (a, text) := rfl

@[simp] theorem map_apply (f : α → β) (p : Reader α) (text : List Char) :
    (f <$> p) text = (p text).map fun r => (f r.1, r.2) := by
  show (p text).bind _ = _
  cases p text <;> rfl

@[simp] theorem orElse_apply (p q : Reader α) (text : List Char) :
    (p <|> q) text = (p text).or (q text) := by
  show (p text <|> q text) = _
  cases p text <;> rfl

@[simp] theorem lift_apply (x : Option α) (text : List Char) :
    (liftM x : Reader α) text = x.map fun a => (a, text) := by
  cases x <;> rfl

@[simp] theorem discard_apply (p : Reader α) (text : List Char) :
    (discard p : Reader PUnit) text = (p text).map fun r => ((), r.2) := by
  show (p text).bind _ = _
  cases p text <;> rfl

@[simp] theorem peek?_apply (text : List Char) : peek? text = some (text.head?, text) := rfl

@[simp] theorem guard_apply (c : Prop) [Decidable c] (text : List Char) :
    (guard c : Reader Unit) text = if c then some ((), text) else none := by
  unfold guard
  split <;> rfl

theorem optional?_of_some {p : Reader α} {text rest : List Char} {a : α}
    (h : p text = some (a, rest)) : optional? p text = some (some a, rest) := by
  simp [optional?, h]

theorem optional?_of_none {p : Reader α} {text : List Char} (h : p text = none) :
    optional? p text = some (none, text) := by
  simp [optional?, h]

/-! ## Single characters -/

@[simp] theorem satisfy_cons (p : Char → Bool) (c : Char) (rest : List Char) :
    satisfy p (c :: rest) = if p c then some (c, rest) else none := rfl

@[simp] theorem satisfy_nil (p : Char → Bool) : satisfy p [] = none := rfl

@[simp] theorem char_cons (c d : Char) (rest : List Char) :
    char c (d :: rest) = if d = c then some ((), rest) else none := by
  by_cases h : d = c <;> simp [char, h]

theorem literal_append (s : String) (rest : List Char) :
    literal s (s.toList ++ rest) = some ((), rest) := by
  unfold literal
  induction s.toList with
  | nil => rfl
  | cons c cs ih =>
    simp only [List.forM_eq_forM] at ih ⊢
    simp [ih]

theorem literal_of_ne {s : String} {first c : Char} {tail : List Char}
    (hs : s.toList = first :: tail) (h : c ≠ first) (rest : List Char) :
    literal s (c :: rest) = none := by
  simp [literal, hs, h]

/-! ## What comes next -/

/-- Whether a text does not go on with a character of a kind. -/
def Stops (p : Char → Bool) (text : List Char) : Prop := ∀ c ∈ text.head?, p c = false

theorem stops_cons {p : Char → Bool} {c : Char} {rest : List Char} :
    Stops p (c :: rest) ↔ p c = false := by
  simp [Stops]

theorem satisfy_of_stops {p : Char → Bool} {text : List Char} (h : Stops p text) :
    satisfy p text = none := by
  cases text with
  | nil => rfl
  | cons c rest => simp [stops_cons.mp h]

theorem char_of_stops {c : Char} {text : List Char} (h : Stops (· == c) text) :
    char c text = none := by
  simp [char, satisfy_of_stops h]

theorem takeWhile_eq_nil_of_stops {p : Char → Bool} {text : List Char} (h : Stops p text) :
    text.takeWhile p = [] := by
  cases text with
  | nil => rfl
  | cons c rest => simp [stops_cons.mp h]

theorem dropWhile_of_stops {p : Char → Bool} {text : List Char} (h : Stops p text) :
    text.dropWhile p = text := by
  cases text with
  | nil => rfl
  | cons c rest => simp [stops_cons.mp h]

theorem takeWhile_append {p : Char → Bool} (front : List Char) {rest : List Char}
    (hfront : ∀ c ∈ front, p c = true) (hrest : Stops p rest) :
    takeWhile p (front ++ rest) = some (front, rest) := by
  simp [takeWhile, List.takeWhile_append_of_pos hfront, List.dropWhile_append_of_pos hfront,
    takeWhile_eq_nil_of_stops hrest, dropWhile_of_stops hrest]

theorem takeWhile_of_stops {p : Char → Bool} {text : List Char} (h : Stops p text) :
    takeWhile p text = some ([], text) := takeWhile_append [] (by simp) h

theorem takeWhile1_append {p : Char → Bool} {front rest : List Char} (hne : front ≠ [])
    (hfront : ∀ c ∈ front, p c = true) (hrest : Stops p rest) :
    takeWhile1 p (front ++ rest) = some (front, rest) := by
  cases front with
  | nil => exact absurd rfl hne
  | cons c front =>
    have htail := takeWhile_append front (fun d hd => hfront d (List.mem_cons_of_mem c hd)) hrest
    simp [takeWhile1, hfront c List.mem_cons_self, htail]

/-- What is read in a fixed number of characters stood at the front. -/
theorem exactly_eq_some {p : Char → Bool} {n : Nat} {text front rest : List Char}
    (h : exactly p n text = some (front, rest)) :
    text = front ++ rest ∧ ∀ c ∈ front, p c = true := by
  induction n generalizing text front with
  | zero =>
    obtain ⟨rfl, rfl⟩ : [] = front ∧ text = rest := by simpa [exactly] using h
    simp
  | succ n ih =>
    cases text with
    | nil => simp [exactly] at h
    | cons c text =>
      by_cases hc : p c = true
      · simp only [exactly, bind_apply, satisfy_cons, hc, if_true, Option.bind_some] at h
        obtain ⟨⟨tail, rest'⟩, htail, hr⟩ := Option.bind_eq_some_iff.mp h
        obtain ⟨rfl, rfl⟩ : c :: tail = front ∧ rest' = rest := by simpa using hr
        obtain ⟨rfl, hall⟩ := ih htail
        simpa [hc] using hall
      · simp [exactly, hc] at h

/-- A mark that does not follow a run of characters does not follow a part of it either. -/
theorem stops_of_exactly {p : Char → Bool} {n : Nat} {mark : Char}
    {front rest taken left : List Char} (hmark : p mark = false)
    (hfront : ∀ c ∈ front, p c = true) (hrest : Stops p rest) (hother : Stops (· == mark) rest)
    (h : exactly p n (front ++ rest) = some (taken, left)) : Stops (· == mark) left := by
  obtain ⟨hsplit, htaken⟩ := exactly_eq_some h
  have hleft : left.dropWhile p = rest := by
    have hdrop := congrArg (List.dropWhile p) hsplit
    rw [List.dropWhile_append_of_pos hfront, List.dropWhile_append_of_pos htaken,
      dropWhile_of_stops hrest] at hdrop
    exact hdrop.symm
  cases left with
  | nil => simp [Stops]
  | cons c left =>
    by_cases hc : p c = true
    · have hne : c ≠ mark := fun heq => by simp [heq, hmark] at hc
      simpa [stops_cons] using hne
    · have hall : c :: left = rest := by simpa [hc] using hleft
      rwa [hall]

/-! ## Many items -/

/-- Whether a reader takes items off a text one after the other, and refuses what is left. -/
inductive TakesAll (p : Reader α) : List Char → List α → List Char → Prop where
  | stop {text : List Char} (h : p text = none) : TakesAll p text [] text
  | take {text mid rest : List Char} {item : α} {items : List α} (h : p text = some (item, mid))
    (hshorter : mid.length < text.length) (hrest : TakesAll p mid items rest) :
    TakesAll p text (item :: items) rest

theorem many_go {p : Reader α} {text rest : List Char} {items : List α}
    (h : TakesAll p text items rest) {fuel : List Char} (hfuel : text.length ≤ fuel.length)
    (found : List α) : many.go p fuel found text = (found.reverse ++ items, rest) := by
  -- each item takes a character at least, and so does no more than use up the fuel
  induction h generalizing fuel found with
  | stop h => cases fuel <;> simp [many.go, h]
  | @take text mid rest item items h hshorter hrest ih =>
    cases fuel with
    | nil => exact absurd (Nat.lt_of_lt_of_le hshorter hfuel) (Nat.not_lt_zero _)
    | cons c fuel =>
      have hmid : mid.length ≤ fuel.length := by
        rw [List.length_cons] at hfuel
        omega
      simp [many.go, h, ih hmid (item :: found)]

theorem many_of_takesAll {p : Reader α} {text rest : List Char} {items : List α}
    (h : TakesAll p text items rest) : many p text = some (items, rest) := by
  rw [many, many_go h (Nat.le_refl _)]
  rfl

theorem many_of_none {p : Reader α} {text : List Char} (h : p text = none) :
    many p text = some ([], text) := many_of_takesAll (.stop h)

theorem separated1_of_takesAll {separator : Char} {item : Reader α} {text mid rest : List Char}
    {first : α} {items : List α} (hfirst : item text = some (first, mid))
    (hrest : TakesAll (do char separator; item) mid items rest) :
    separated1 separator item text = some (first :: items, rest) := by
  have hmany := many_of_takesAll hrest
  simp [separated1, hfirst, hmany]

theorem separated_of_takesAll {separator : Char} {item : Reader α} {text mid rest : List Char}
    {first : α} {items : List α} (hfirst : item text = some (first, mid))
    (hrest : TakesAll (do char separator; item) mid items rest) :
    separated separator item text = some (first :: items, rest) := by
  have hmany := many_of_takesAll hrest
  simp [separated, optional?_of_some hfirst, hmany]

theorem separated_of_none {separator : Char} {item : Reader α} {text : List Char}
    (h : item text = none) : separated separator item text = some ([], text) := by
  simp [separated, optional?_of_none h]

end Reader

end SignedFlash.Toml
