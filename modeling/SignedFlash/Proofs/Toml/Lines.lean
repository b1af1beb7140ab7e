import SignedFlash.Proofs.Toml.Scalars
import Mathlib.Data.List.Forall2

/-!
# Lines read back

A value is read off the text before what follows it: strings, whole numbers, and lists of what can
be read. From values come lines, which give a key a value or open the next table of an array, and
from lines the statements of a document.
-/

namespace SignedFlash.Toml

open Reader

variable {rest : List Char}

/-! ## Space -/

-- The characters that blanks, line ends and comments start with.
def startsSpace (c : Char) : Bool := isBlank c || c == '\n' || c == '\r' || c == '#'

theorem newline_of_ne {c : Char} (hfeed : c ≠ '\n') (hreturn : c ≠ '\r') :
    newline (c :: rest) = none := by
  have hliteral := literal_of_ne (s := "\r\n") rfl hreturn rest
  simp [newline, hfeed, hliteral]

theorem blanks_of_stops (h : Stops isBlank rest) : blanks rest = some ((), rest) := by
  simp [blanks, takeWhile_of_stops h]

theorem stops_isBlank (h : Stops startsSpace rest) : Stops isBlank rest := fun c hc => by
  have hspace := h c hc
  simp_all [startsSpace]

theorem blanks_blank (h : Stops isBlank rest) : blanks (' ' :: rest) = some ((), rest) := by
  have htake := takeWhile_append (p := isBlank) [' '] (by simp [isBlank]) h
  simp only [List.cons_append, List.nil_append] at htake
  simp [blanks, htake]

-- One of the pieces that space is made of.
theorem spacePiece_of_stops (h : Stops startsSpace rest) :
    ((discard <| takeWhile1 isBlank) <|> newline <|> (do comment; newline) : Reader Unit) rest =
      none := by
  cases rest with
  | nil => rfl
  | cons c rest =>
    have hc : startsSpace c = false := stops_cons.mp h
    simp [startsSpace] at hc
    simp [takeWhile1, hc, newline_of_ne, comment]

theorem space_of_stops (h : Stops startsSpace rest) : space rest = some ((), rest) := by
  simp [space, many_of_none (spacePiece_of_stops h)]

theorem space_blank (h : Stops startsSpace rest) : space (' ' :: rest) = some ((), rest) := by
  have hblank : ([' '] : List Char) ≠ [] := by simp
  have htake := takeWhile1_append (p := isBlank) hblank (by simp [isBlank]) (stops_isBlank h)
  simp only [List.cons_append, List.nil_append] at htake
  have hpieces : TakesAll
      ((discard <| takeWhile1 isBlank) <|> newline <|> (do comment; newline) : Reader Unit)
      (' ' :: rest) [()] rest :=
    .take (by simp [htake]) (by simp) (.stop (spacePiece_of_stops h))
  simp [space, many_of_takesAll hpieces]

/-! ## Values -/

theorem value_of_scalar {c : Char} (hbracket : c ≠ '[') (hbrace : c ≠ '\x7b') (depth : Nat) :
    value depth (c :: rest) = scalar (c :: rest) := by
  cases depth <;> simp [value, hbracket, hbrace]

/-- Whether a text, in front of whatever may follow a value, is read as a value. -/
structure ReadsAs (depth : Nat) (text : String) (v : Value) : Prop where
  starts : ∀ rest, Stops startsSpace (text.toList ++ rest)
  reads : ∀ {rest}, FollowsValue rest → value depth (text.toList ++ rest) = some (v, rest)

theorem readsAs_string (depth : Nat) (s : String) : ReadsAs depth (quoted s) (.string s) where
  starts rest := by
    rw [toList_quoted]
    exact stops_cons.mpr (by decide)
  reads {rest} hrest := by
    have hstring := anyString_quoted s (hrest.stops (· == '\x22'))
    rw [toList_quoted, List.cons_append] at hstring ⊢
    rw [value_of_scalar (by decide) (by decide)]
    simp only [scalar, bind_apply, peek?_apply, Option.bind_some, List.head?_cons, map_apply,
      hstring, Option.map_some]

theorem ne_of_startsNumber {c d : Char} (hc : startsNumber c = true)
    (hd : startsNumber d = false) : c ≠ d := fun h => by simp [h, hd] at hc

theorem scalar_of_startsNumber {c : Char} (h : startsNumber c = true) :
    scalar (c :: rest) = (.datetime <$> datetime <|> .float <$> float <|> .integer <$> integer :
      Reader Value) (c :: rest) := by
  simp only [scalar, bind_apply, peek?_apply, Option.bind_some, List.head?_cons]
  refine congrFun ?_ (c :: rest)
  split
  case h_7 => rfl
  -- no other value starts as a number does
  all_goals
    rename_i hother
    cases hother
    exact absurd h (by decide)

theorem readsAs_integer (depth : Nat) {i : Int}
    (hi : -0x8000000000000000 ≤ i ∧ i < 0x8000000000000000) :
    ReadsAs depth (toString i) (.integer i) where
  starts rest := by
    obtain ⟨first, tail, hdecimal, hfirst⟩ := exists_signedDecimal_eq_cons i
    rw [toList_toString_int, hdecimal]
    apply stops_cons.mpr
    have hne (d : Char) (hd : startsNumber d = false) : first ≠ d := ne_of_startsNumber hfirst hd
    simp [startsSpace, isBlank, hne ' ', hne '\t', hne '\n', hne '\r', hne '#', startsNumber]
  reads {rest} hrest := by
    have hdatetime := datetime_signedDecimal i hrest
    have hfloat := float_signedDecimal i hrest
    have hinteger := integer_signedDecimal hi hrest
    obtain ⟨first, tail, hdecimal, hfirst⟩ := exists_signedDecimal_eq_cons i
    rw [toList_toString_int]
    rw [hdecimal, List.cons_append] at hdatetime hfloat hinteger ⊢
    rw [value_of_scalar (ne_of_startsNumber hfirst (by decide))
      (ne_of_startsNumber hfirst (by decide)), scalar_of_startsNumber hfirst]
    simp [hdatetime, hfloat, hinteger]

/-! ## Lists of values -/

-- The items of a list behind the first, as they are written.
def otherItems (texts : List String) : List Char :=
  texts.flatMap fun text => ',' :: ' ' :: text.toList

theorem toList_intercalate_cons (text : String) (texts : List String) :
    (", ".intercalate (text :: texts)).toList = text.toList ++ otherItems texts := by
  induction texts generalizing text with
  | nil => simp [otherItems]
  | cons next texts ih => simp [String.intercalate_cons_cons, ih, otherItems]

theorem followsItem (texts : List String) (rest : List Char) :
    FollowsValue (otherItems texts ++ ']' :: rest) ∧
      Stops startsSpace (otherItems texts ++ ']' :: rest) := by
  cases texts with
  | nil => exact ⟨followsValue_cons (by decide) _, stops_cons.mpr (by decide)⟩
  | cons text texts => exact ⟨followsValue_cons (by decide) _, stops_cons.mpr (by decide)⟩

theorem takesAll_otherItems {depth : Nat} {texts : List String} {values : List Value}
    (h : List.Forall₂ (ReadsAs depth) texts values) :
    TakesAll (do char ','; space; let item ← value depth; space; return item)
      (otherItems texts ++ ']' :: rest) values (']' :: rest) := by
  induction h with
  | nil => exact .stop (by simp [otherItems])
  | @cons text v texts values hfirst _ ih =>
    obtain ⟨hfollows, hstops⟩ := followsItem texts rest
    have hsplit : otherItems (text :: texts) ++ ']' :: rest =
        ',' :: ' ' :: (text.toList ++ (otherItems texts ++ ']' :: rest)) := by
      simp [otherItems]
    have hspace := space_blank (hfirst.starts (otherItems texts ++ ']' :: rest))
    rw [hsplit]
    apply TakesAll.take _ _ ih
    · simp [hspace, hfirst.reads hfollows, space_of_stops hstops]
    · simp
      omega

theorem arrayItems_cons {depth : Nat} {text : String} {v : Value} {texts : List String}
    {values : List Value} (hfirst : ReadsAs depth text v)
    (h : List.Forall₂ (ReadsAs depth) texts values) (rest : List Char) :
    arrayItems (value depth) (text.toList ++ (otherItems texts ++ ']' :: rest)) =
      some (v :: values, rest) := by
  obtain ⟨hfollows, hstops⟩ := followsItem texts rest
  have hclosing : Stops startsSpace (']' :: rest) := stops_cons.mpr (by decide)
  have hitem : (do space; let item ← value depth; space; return item : Reader Value)
      (text.toList ++ (otherItems texts ++ ']' :: rest)) =
        some (v, otherItems texts ++ ']' :: rest) := by
    simp [space_of_stops (hfirst.starts _), hfirst.reads hfollows, space_of_stops hstops]
  have hitems := separated_of_takesAll hitem (takesAll_otherItems h)
  simp only [arrayItems, bind_apply, hitems, Option.bind_some]
  simp [optional?, space_of_stops hclosing]

-- Nothing that a value starts with.
theorem value_bracket (depth : Nat) : value depth (']' :: rest) = none := by
  have hbounded := bounded_of_not_isDigit (c := ']') (by decide)
  have hdatetime : datetime (']' :: rest) = none :=
    datetime_of_none (by simp [date, hbounded]) (by simp [timeOfDay, hbounded])
  have hsign : sign (']' :: rest) = some (none, ']' :: rest) := by simp [sign, optional?]
  have hdigits : wholeDigits (']' :: rest) = none := by
    simp [wholeDigits, digits, separated1, takeWhile1]
  have hfloat : float (']' :: rest) = none := by
    simp [float, finiteFloat, specialFloat, hsign, hdigits, literal]
  have hinteger : integer (']' :: rest) = none := by
    simp [integer, markedInteger, decimalInteger, hsign, hdigits, literal]
  rw [value_of_scalar (by decide) (by decide)]
  simp [scalar, hdatetime, hfloat, hinteger]

theorem arrayItems_nil (depth : Nat) :
    arrayItems (value depth) (']' :: rest) = some ([], rest) := by
  have hclosing : Stops startsSpace (']' :: rest) := stops_cons.mpr (by decide)
  have hitem : (do space; let item ← value depth; space; return item : Reader Value)
      (']' :: rest) = none := by
    simp [space_of_stops hclosing, value_bracket]
  simp only [arrayItems, bind_apply, separated_of_none hitem, Option.bind_some]
  simp [space_of_stops hclosing]

/-- A list is read as the list of what its items are read as. -/
theorem readsAs_array {depth : Nat} {texts : List String} {values : List Value}
    (h : List.Forall₂ (ReadsAs depth) texts values) :
    ReadsAs (depth + 1) (bracketed "[" "]" texts) (.array false values) where
  starts rest := by
    simp only [bracketed, String.toList_append]
    exact stops_cons.mpr (by decide)
  reads {rest} _ := by
    cases h with
    | nil => simp [bracketed, value, arrayItems_nil]
    | cons hfirst h =>
      have hitems := arrayItems_cons hfirst h rest
      simp only [bracketed, String.toList_append, toList_intercalate_cons]
      simp [value, hitems]

/-! ## Keys -/

-- The characters that a key is written with in front.
def startsKey (c : Char) : Bool := c == '\x22' || isBareKeyChar c

theorem ne_of_startsKey {c d : Char} (hc : startsKey c = true) (hd : startsKey d = false) :
    c ≠ d := fun h => by simp [h, hd] at hc

theorem exists_renderKey_eq_cons (key : String) :
    ∃ first tail, (renderKey key).toList = first :: tail ∧ startsKey first = true := by
  unfold renderKey
  split
  case isTrue hbare =>
    cases hchars : key.toList with
    | nil => simp_all
    | cons c chars =>
      have hc : isBareKeyChar c = true := by simp_all
      exact ⟨c, chars, rfl, by simp [startsKey, hc]⟩
  case isFalse => exact ⟨_, _, toList_quoted key, rfl⟩

theorem stops_renderKey (key : String) (rest : List Char) {p : Char → Bool}
    (hp : ∀ c, startsKey c = true → p c = false) : Stops p ((renderKey key).toList ++ rest) := by
  obtain ⟨first, tail, hkey, hfirst⟩ := exists_renderKey_eq_cons key
  rw [hkey]
  exact stops_cons.mpr (hp first hfirst)

theorem isBlank_of_startsKey {c : Char} (h : startsKey c = true) : isBlank c = false := by
  simp [isBlank, ne_of_startsKey h (d := ' ') (by decide),
    ne_of_startsKey h (d := '\t') (by decide)]

theorem simpleKey_renderKey (key : String) (hrest : Stops isBareKeyChar rest) :
    simpleKey ((renderKey key).toList ++ rest) = some (key, rest) := by
  unfold renderKey
  split
  case isTrue hbare =>
    obtain ⟨hne, hall⟩ : key ≠ "" ∧ ∀ c ∈ key.toList, isBareKeyChar c = true := by
      simpa using hbare
    have htake : takeWhile1 isBareKeyChar (key.toList ++ rest) = some (key.toList, rest) :=
      takeWhile1_append (by simpa using hne) hall hrest
    have hquotes (quote : Char) (hquote : isBareKeyChar quote = false) :
        char quote (key.toList ++ rest) = none := by
      cases hchars : key.toList with
      | nil => simp_all
      | cons c chars =>
        have hc : c ≠ quote := fun h => by simp_all
        simp [hc]
    have hbasic : basicString (key.toList ++ rest) = none := by
      simp [basicString, hquotes '\x22' (by decide)]
    have hliteral : literalString (key.toList ++ rest) = none := by
      simp [literalString, hquotes '\x27' (by decide)]
    simp [simpleKey, hbasic, hliteral, htake]
  case isFalse => simp [simpleKey, basicString_quoted]

/-- A key reads back as a dotted key of one part. -/
theorem dottedKey_renderKey (key : String) (behind : List Char)
    (hbehind : Stops isBareKeyChar behind) (hblanks : blanks behind = some ((), rest))
    (hrest : Stops (· == '.') rest) :
    dottedKey ((renderKey key).toList ++ behind) = some (⟨[], key⟩, rest) := by
  have hfront : blanks ((renderKey key).toList ++ behind) =
      some ((), (renderKey key).toList ++ behind) :=
    blanks_of_stops (stops_renderKey key behind fun c hc => isBlank_of_startsKey hc)
  have hpart : (do blanks; let part ← simpleKey; blanks; return part : Reader String)
      ((renderKey key).toList ++ behind) = some (key, rest) := by
    simp [hfront, simpleKey_renderKey key hbehind, hblanks]
  have hno_more : (do char '.'; blanks; let part ← simpleKey; blanks; return part : Reader String)
      rest = none := by
    simp [char_of_stops hrest]
  have hparts := separated1_of_takesAll hpart (.stop hno_more)
  simp only [dottedKey, bind_apply, hparts, Option.bind_some, guard_apply]
  simp [nestingLimit]

/-! ## Lines -/

/-- Whether a line is read as a statement. -/
def ReadsLine (line : String) (statement : Statement) : Prop :=
  ∀ rest, Toml.line (line.toList ++ '\n' :: rest) = some (some statement, rest)

theorem lineEnd_newline : lineEnd ('\n' :: rest) = some ((), rest) := by
  have hblanks : blanks ('\n' :: rest) = some ((), '\n' :: rest) :=
    blanks_of_stops (stops_cons.mpr (by decide))
  simp [lineEnd, hblanks, optional?, comment, newline]

-- A line that starts with nothing that a statement starts with.
theorem line_of_none {c : Char} (hblank : isBlank c = false) (hkey : startsKey c = false)
    (hquote : c ≠ '\x27') (hbracket : c ≠ '[') :
    Toml.line (c :: rest) = (lineEnd (c :: rest)).map fun result => (none, result.2) := by
  have hblanks : blanks (c :: rest) = some ((), c :: rest) :=
    blanks_of_stops (stops_cons.mpr hblank)
  obtain ⟨hdouble, hbare⟩ : c ≠ '\x22' ∧ isBareKeyChar c = false := by
    simpa [startsKey] using hkey
  have hsimple : simpleKey (c :: rest) = none := by
    simp [simpleKey, basicString, literalString, takeWhile1, hdouble, hquote, hbare]
  have hname : dottedKey (c :: rest) = none := by
    simp [dottedKey, separated1, hblanks, hsimple]
  simp [Toml.line, hblanks, optional?, header, assignment, hname, hbracket]

theorem line_newline : Toml.line ('\n' :: rest) = some (none, rest) := by
  rw [line_of_none (by decide) (by decide) (by decide) (by decide), lineEnd_newline]
  rfl

-- A mark of the byte order is no line.
theorem line_mark : Toml.line ('\ufeff' :: rest) = none := by
  have hblanks : blanks ('\ufeff' :: rest) = some ((), '\ufeff' :: rest) :=
    blanks_of_stops (stops_cons.mpr (by decide))
  have hend : lineEnd ('\ufeff' :: rest) = none := by
    simp [lineEnd, hblanks, optional?, comment, newline_of_ne, endOfText]
  rw [line_of_none (by decide) (by decide) (by decide) (by decide), hend]
  rfl

-- A line that starts as no table does and no blank.
theorem line_of_statement {text : List Char} {statement : Statement}
    (hblank : Stops isBlank text)
    (hstatement : (header <|> assignment : Reader Statement) text =
      some (statement, '\n' :: rest)) :
    Toml.line text = some (some statement, rest) := by
  simp only [Toml.line, bind_apply, blanks_of_stops hblank, Option.bind_some,
    optional?_of_some hstatement, lineEnd_newline]
  rfl

/-- A line that gives a key a value. -/
theorem readsLine_assign (key : String) {text : String} {v : Value}
    (h : ReadsAs (nestingLimit - 1) text v) :
    ReadsLine (renderKey key ++ " = " ++ text) (.assign ⟨[], key⟩ v) := by
  intro rest
  have hsplit : (renderKey key ++ " = " ++ text).toList ++ '\n' :: rest =
      (renderKey key).toList ++ (' ' :: '=' :: ' ' :: (text.toList ++ '\n' :: rest)) := by
    simp
  have hname := dottedKey_renderKey key
    (' ' :: '=' :: ' ' :: (text.toList ++ '\n' :: rest)) (stops_cons.mpr (by decide))
    (blanks_blank (stops_cons.mpr (by decide))) (stops_cons.mpr (by decide))
  have hblanks := blanks_blank (stops_isBlank (h.starts ('\n' :: rest)))
  have hvalue := h.reads (followsValue_cons (c := '\n') (by decide) rest)
  have hbracket : char '[' ((renderKey key).toList ++
      (' ' :: '=' :: ' ' :: (text.toList ++ '\n' :: rest))) = none :=
    char_of_stops (stops_renderKey key _ fun c hc => by
      simp [ne_of_startsKey hc (d := '[') (by decide)])
  rw [hsplit]
  apply line_of_statement
  · exact stops_renderKey key _ fun c hc => isBlank_of_startsKey hc
  · simp [header, hbracket, assignment, hname, hblanks, hvalue]

/-- A line that opens the next table of an array. -/
theorem readsLine_arrayTable (key : String) :
    ReadsLine ("[[" ++ renderKey key ++ "]]") (.arrayTable ⟨[], key⟩) := by
  intro rest
  have hname := dottedKey_renderKey key
    (']' :: ']' :: '\n' :: rest) (stops_cons.mpr (by decide))
    (blanks_of_stops (stops_cons.mpr (by decide))) (stops_cons.mpr (by decide))
  have hclosing : literal "]]" (']' :: ']' :: '\n' :: rest) = some ((), '\n' :: rest) :=
    literal_append "]]" ('\n' :: rest)
  have hsplit : ("[[" ++ renderKey key ++ "]]").toList ++ '\n' :: rest =
      '[' :: '[' :: ((renderKey key).toList ++ (']' :: ']' :: '\n' :: rest)) := by
    simp
  rw [hsplit]
  apply line_of_statement
  · exact stops_cons.mpr (by decide)
  · simp [header, optional?, hname, hclosing]

/-- The statements that lines are read as. An empty line is none. -/
inductive ReadsLines : List String → List Statement → Prop where
  | nil : ReadsLines [] []
  | empty {lines : List String} {found : List Statement} (h : ReadsLines lines found) :
    ReadsLines ("" :: lines) found
  | cons {line : String} {statement : Statement} {lines : List String} {found : List Statement}
    (hline : ReadsLine line statement) (h : ReadsLines lines found) :
    ReadsLines (line :: lines) (statement :: found)

theorem ReadsLines.append {lines others : List String} {found more : List Statement}
    (h : ReadsLines lines found) (hothers : ReadsLines others more) :
    ReadsLines (lines ++ others) (found ++ more) := by
  induction h with
  | nil => exact hothers
  | empty _ ih => exact .empty ih
  | cons hline _ ih => exact .cons hline ih

theorem toList_endLines_cons (line : String) (lines : List String) :
    (endLines (line :: lines)).toList = line.toList ++ '\n' :: (endLines lines).toList := by
  simp [endLines]

theorem takesAll_endLines {lines : List String} {found : List Statement}
    (h : ReadsLines lines found) :
    ∃ items, items.filterMap id = found ∧
      TakesAll (do notAtEnd; Toml.line) (endLines lines).toList items [] := by
  induction h with
  | nil => exact ⟨[], rfl, .stop (by simp [endLines, notAtEnd])⟩
  | @empty lines found _ ih =>
    obtain ⟨items, hfound, htakes⟩ := ih
    refine ⟨none :: items, hfound, ?_⟩
    rw [toList_endLines_cons]
    apply TakesAll.take _ _ htakes
    · simp [notAtEnd, line_newline]
    · simp
  | @cons line statement lines found hline _ ih =>
    obtain ⟨items, hfound, htakes⟩ := ih
    refine ⟨some statement :: items, by rw [← hfound]; rfl, ?_⟩
    rw [toList_endLines_cons]
    apply TakesAll.take _ _ htakes
    · simp [notAtEnd, hline _]
    · simp
      omega

/-- Lines are read as their statements. -/
theorem statements_endLines {lines : List String} {found : List Statement}
    (h : ReadsLines lines found) : statements (endLines lines) = some found := by
  obtain ⟨items, hfound, htakes⟩ := takesAll_endLines h
  have hlines : Toml.lines (endLines lines).toList = some (items, []) := by
    simp [Toml.lines, many_of_takesAll htakes, endOfText]
  have hmark : ∀ rest, (endLines lines).toList ≠ '\ufeff' :: rest := by
    intro rest hrest
    rw [hrest] at htakes
    cases htakes with
    | take hline => simp [notAtEnd, line_mark] at hline
  unfold statements
  split
  case h_1 rest hrest => exact absurd hrest (hmark rest)
  case h_2 =>
    show (Toml.lines (endLines lines).toList).map _ = some found
    rw [hlines, ← hfound]
    rfl

end SignedFlash.Toml
