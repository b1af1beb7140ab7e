/-!
# Reading text

A reader takes a value off the front of a text, or refuses it. Alternatives are tried in order, each
on the whole text.
-/

namespace SignedFlash.Toml

-- Takes a value off the front of a text.
abbrev Reader := StateT (List Char) Option

namespace Reader

def peek? : Reader (Option Char) := do return (← get).head?

def satisfy (p : Char → Bool) : Reader Char := fun text =>
  match text with
  | c :: rest => if p c then some (c, rest) else none
  | [] => none

def char (c : Char) : Reader Unit := do discard <| satisfy (· == c)

def literal (s : String) : Reader Unit := s.toList.forM char

-- All characters up to the first that does not satisfy a condition.
def takeWhile (p : Char → Bool) : Reader (List Char) := fun text =>
  some (text.takeWhile p, text.dropWhile p)

-- At least one character, up to the first that does not satisfy a condition.
def takeWhile1 (p : Char → Bool) : Reader (List Char) := do
  let first ← satisfy p
  return first :: (← takeWhile p)

def exactly (p : Char → Bool) : Nat → Reader (List Char)
  | 0 => pure []
  | n + 1 => do
    let first ← satisfy p
    return first :: (← exactly p n)

def optional? {α : Type} (p : Reader α) : Reader (Option α) := (some <$> p) <|> pure none

/-- Reads as often as a reader takes something. The reader must take at least one character, so that
no more items are read than there are characters. -/
def many {α : Type} (p : Reader α) : Reader (List α) := fun text => some (go text [] text)
where
  -- Reads on, with at most as many items as the first list is long, after the items found, which
  -- are in reverse order.
  go : List Char → List α → List Char → List α × List Char
    | [], found, text => (found.reverse, text)
    | _ :: fuel, found, text =>
      match p text with
      | none => (found.reverse, text)
      | some (item, rest) => go fuel (item :: found) rest

-- Reads items with a given character between them, if there are any.
def separated {α : Type} (separator : Char) (item : Reader α) : Reader (List α) := do
  match ← optional? item with
  | none => pure []
  | some first => return first :: (← many (do char separator; item))

-- Reads items with a given character between them, at least one.
def separated1 {α : Type} (separator : Char) (item : Reader α) : Reader (List α) := do
  let first ← item
  return first :: (← many (do char separator; item))

def endOfText : Reader Unit := fun text => if text.isEmpty then some ((), []) else none

def notAtEnd : Reader Unit := fun text => if text.isEmpty then none else some ((), text)

end Reader

end SignedFlash.Toml
