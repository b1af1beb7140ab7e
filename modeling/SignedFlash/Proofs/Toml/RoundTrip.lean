import SignedFlash.Proofs.Toml.Lines
import SignedFlash.Toml.Document
import Mathlib.Data.List.Nodup

/-!
# Documents read back

A document of plain values and of arrays of tables, with no key twice in one table, reads back from
the text that is written for it. Its plain values come first, wherever they stood.
-/

namespace SignedFlash.Toml

/-! ## Entries at the end of a table -/

-- If no key comes twice, a key does not come before its place.
theorem notMem_map_of_nodup {α β : Type} {f : α → β} {front more : List α} {a : α}
    (h : ((front ++ a :: more).map f).Nodup) : f a ∉ front.map f := by
  rw [List.map_append, List.map_cons, List.nodup_middle, List.nodup_cons] at h
  exact fun hmem => h.1 (List.mem_append_left _ hmem)

namespace Entries

theorem get?_eq_none {entries : Entries} {key : String} (h : key ∉ entries.map Prod.fst) :
    entries.get? key = none := by
  rw [get?, List.lookup_eq_none_iff]
  intro entry hentry
  have hne : key ≠ entry.1 := fun heq => h (heq ▸ List.mem_map_of_mem hentry)
  simpa using hne

theorem put_of_notMem {entries : Entries} {key : String} (h : key ∉ entries.map Prod.fst)
    (value : Value) : entries.put key value = entries ++ [(key, value)] := by
  induction entries with
  | nil => rfl
  | cons entry entries ih =>
    obtain ⟨hne, hrest⟩ : key ≠ entry.1 ∧ key ∉ entries.map Prod.fst := by simpa using h
    simp [put, Ne.symm hne, ih hrest]

theorem get?_append {entries : Entries} {key : String} (h : key ∉ entries.map Prod.fst)
    (value : Value) : Entries.get? (entries ++ [(key, value)]) key = some value := by
  rw [← put_of_notMem h, get?_put, if_pos rfl]

theorem put_append {entries : Entries} {key : String} (h : key ∉ entries.map Prod.fst)
    (former value : Value) :
    Entries.put (entries ++ [(key, former)]) key value = entries ++ [(key, value)] := by
  induction entries with
  | nil => simp [put]
  | cons entry entries ih =>
    obtain ⟨hne, hrest⟩ : key ≠ entry.1 ∧ key ∉ entries.map Prod.fst := by simpa using h
    simp [put, Ne.symm hne, ih hrest]

end Entries

/-! ## Giving values -/

/-- Whether an open table is a hole in the entries of a document: a change is one of what is in the
hole. -/
def IsHole (path : List String) (fill : Entries → Entries) : Prop :=
  ∀ change entries, changeAt .implied change path (fill entries) = (change entries).map fill

theorem isHole_root : IsHole [] id := fun change entries => by
  cases h : change entries <;> simp [changeAt, h]

theorem changeLast_append (change : Change) (origin : TableOrigin) (entries : Entries)
    (items : List Value) :
    changeLast change (items ++ [.table origin entries]) =
      (change entries).map fun entries => items ++ [.table origin entries] := by
  induction items with
  | nil => cases h : change entries <;> simp [changeLast, h]
  | cons item items ih =>
    simp only [List.cons_append]
    rw [changeLast, ih]
    · cases change entries <;> rfl
    · simp
    · simp

-- The last table of the array that comes last.
theorem isHole_array {front : Entries} {key : String} (h : key ∉ front.map Prod.fst)
    (items : List Value) (origin : TableOrigin) :
    IsHole [key] fun entries =>
      front ++ [(key, .array true (items ++ [.table origin entries]))] := by
  intro change entries
  simp only [changeAt, Entries.get?_append h, changeLast_append, Entries.put_append h]
  cases change entries <;> rfl

/-- The statements that give the keys of a table their values. -/
def assignments (entries : Entries) : List Statement :=
  entries.map fun entry => .assign ⟨[], entry.1⟩ entry.2

/-- Keys that an open table does not have get their values. -/
theorem foldlM_assignments {path : List String} {fill : Entries → Entries}
    (hhole : IsHole path fill) (found : Entries) {entries : Entries}
    (hkeys : ((found ++ entries).map Prod.fst).Nodup) :
    (assignments entries).foldlM Draft.apply ⟨fill found, path⟩ =
      some ⟨fill (found ++ entries), path⟩ := by
  induction entries generalizing found with
  | nil => simp [assignments]
  | cons entry entries ih =>
    have hnew : entry.1 ∉ found.map Prod.fst := notMem_map_of_nodup hkeys
    have hassign : assignDotted ⟨[], entry.1⟩ entry.2 found = some (found ++ [entry]) := by
      simp [assignDotted, mayExtend, changeAt, assignKey, Entries.get?_eq_none hnew,
        Entries.put_of_notMem hnew]
    have hstep : Draft.apply ⟨fill found, path⟩ (.assign ⟨[], entry.1⟩ entry.2) =
        some ⟨fill (found ++ [entry]), path⟩ := by
      simp [Draft.apply, hhole _ found, hassign]
    have hrest := ih (found ++ [entry]) (by simpa using hkeys)
    simpa [assignments, hstep] using hrest

/-! ## Opening tables -/

/-- The entries of a document with an array of tables behind all else, if it has tables. -/
def withArray (front : Entries) (key : String) (tables : List Entries) : Entries :=
  if tables.isEmpty then front else front ++ [(key, .array true (tables.map (.table .header)))]

theorem isHole_withArray {front : Entries} {key : String} (h : key ∉ front.map Prod.fst)
    (tables : List Entries) :
    IsHole [key] fun entries => withArray front key (tables ++ [entries]) := by
  simpa [withArray] using isHole_array h (tables.map (.table .header)) .header

theorem openArrayTable_withArray {front : Entries} {key : String} (h : key ∉ front.map Prod.fst)
    (tables : List Entries) :
    openArrayTable key (withArray front key tables) =
      some (withArray front key (tables ++ [[]])) := by
  cases tables with
  | nil => simp [withArray, openArrayTable, Entries.get?_eq_none h, Entries.put_of_notMem h]
  | cons table tables =>
    simp [withArray, openArrayTable, Entries.get?_append h, Entries.put_append h]

/-- The statements that add a table to an array of tables. -/
def tableStatements (key : String) (entries : Entries) : List Statement :=
  .arrayTable ⟨[], key⟩ :: assignments entries

/-- The tables of an array that a document does not have, one after the other. -/
theorem foldlM_tables {front : Entries} {key : String} (h : key ∉ front.map Prod.fst)
    {more : List Entries} (hmore : ∀ table ∈ more, (table.map Prod.fst).Nodup)
    (tables : List Entries) (path : List String) :
    ∃ last, (more.flatMap (tableStatements key)).foldlM Draft.apply
        ⟨withArray front key tables, path⟩ =
      some ⟨withArray front key (tables ++ more), last⟩ := by
  induction more generalizing tables path with
  | nil => exact ⟨path, by simp⟩
  | cons table more ih =>
    have hopen : Draft.apply ⟨withArray front key tables, path⟩ (.arrayTable ⟨[], key⟩) =
        some ⟨withArray front key (tables ++ [[]]), [key]⟩ := by
      simp [Draft.apply, changeAt, openArrayTable_withArray h]
    have hassign := foldlM_assignments (isHole_withArray h tables) []
      (hmore table List.mem_cons_self)
    obtain ⟨last, hlast⟩ := ih (fun table htable => hmore table (List.mem_cons_of_mem _ htable))
      (tables ++ [table]) [key]
    refine ⟨last, ?_⟩
    simp only [List.nil_append, List.append_assoc, List.cons_append] at hassign hlast
    simp [tableStatements, hopen, hassign, hlast]

/-! ## Lines of a document -/

/-- Whether the entries of a table read back from the lines that are written for them. -/
structure ReadsBack (entries : Entries) : Prop where
  keys_nodup : (entries.map Prod.fst).Nodup
  readsAs : ∀ entry ∈ entries, ReadsAs (nestingLimit - 1) (renderValue entry.2) entry.2

theorem readsLines_assignments {entries : Entries} (read : Value → Value)
    (h : ∀ entry ∈ entries, ReadsAs (nestingLimit - 1) (renderValue entry.2) (read entry.2)) :
    ReadsLines (renderEntries entries)
      (assignments (entries.map fun entry => (entry.1, read entry.2))) := by
  induction entries with
  | nil => exact .nil
  | cons entry entries ih =>
    exact .cons (readsLine_assign entry.1 (h entry List.mem_cons_self))
      (ih fun entry hentry => h entry (List.mem_cons_of_mem _ hentry))

theorem readsLines_table (key : String) {entries : Entries} (h : ReadsBack entries) :
    ReadsLines (renderSection ("[[" ++ renderKey key ++ "]]") (.table .header entries))
      (tableStatements key entries) := by
  have hlines := readsLines_assignments id h.readsAs
  simp only [id_eq, List.map_id'] at hlines
  exact .cons (readsLine_arrayTable key) hlines

theorem endLines_append (lines others : List String) :
    endLines (lines ++ others) = endLines lines ++ endLines others := by
  simp [endLines, String.join_append]

/-- Parts of a text with an empty line between them are read as the statements of all parts. -/
theorem readsLines_intercalate {parts : List (List String)} {found : List (List Statement)}
    (h : List.Forall₂ ReadsLines parts found) :
    ∃ lines, "\n".intercalate (parts.map endLines) = endLines lines ∧
      ReadsLines lines found.flatten := by
  induction h with
  | nil => exact ⟨[], by simp [endLines], .nil⟩
  | @cons part statements parts found hpart hparts ih =>
    obtain ⟨lines, htext, hlines⟩ := ih
    cases hparts with
    | nil => exact ⟨part, by simp, by simpa using hpart⟩
    | cons =>
      refine ⟨part ++ "" :: lines, ?_, hpart.append (.empty hlines)⟩
      rw [List.map_cons, List.map_cons, String.intercalate_cons_cons, ← List.map_cons, htext,
        endLines_append]
      simp [endLines, String.append_assoc]

/-- Whether parts of a text add entries to any document that has none of their keys. -/
def Adds (parts : List (List String)) (entries : Entries) : Prop :=
  ∃ found, List.Forall₂ ReadsLines parts found ∧
    ∀ front path, ((front ++ entries).map Prod.fst).Nodup →
      ∃ last, found.flatten.foldlM Draft.apply ⟨front, path⟩ = some ⟨front ++ entries, last⟩

theorem adds_nil : Adds [] [] := ⟨[], .nil, fun front path _ => ⟨path, by simp⟩⟩

theorem Adds.append {parts others : List (List String)} {entries more : Entries}
    (h : Adds parts entries) (hothers : Adds others more) :
    Adds (parts ++ others) (entries ++ more) := by
  obtain ⟨found, hfound, hadds⟩ := h
  obtain ⟨next, hnext, haddsNext⟩ := hothers
  refine ⟨found ++ next, List.rel_append hfound hnext, fun front path hkeys => ?_⟩
  rw [← List.append_assoc] at hkeys
  have hfront : ((front ++ entries).map Prod.fst).Nodup := by
    rw [List.map_append] at hkeys
    exact (List.nodup_append.mp hkeys).1
  obtain ⟨middle, hmiddle⟩ := hadds front path hfront
  obtain ⟨last, hlast⟩ := haddsNext (front ++ entries) middle hkeys
  refine ⟨last, ?_⟩
  rw [List.flatten_append, List.foldlM_append, hmiddle]
  simpa using hlast

/-- An array of tables, which is written with a header for each table. -/
theorem adds_tables (key : String) {tables : List Entries} (hne : tables ≠ [])
    (h : ∀ table ∈ tables, ReadsBack table) :
    Adds (renderSections (key, .array true (tables.map (.table .header))))
      [(key, .array true (tables.map (.table .header)))] := by
  refine ⟨tables.map (tableStatements key), ?_, fun front path hkeys => ?_⟩
  · simp only [renderSections, List.map_map, List.forall₂_map_left_iff, List.forall₂_map_right_iff,
      List.forall₂_same]
    exact fun table htable => readsLines_table key (h table htable)
  · have hkey : key ∉ front.map Prod.fst := notMem_map_of_nodup hkeys
    have hfold := foldlM_tables hkey (fun table htable => (h table htable).keys_nodup) [] path
    simpa [withArray, hne, List.flatMap] using hfold

/-! ## Documents -/

/-- What a value reads back as: a list in brackets is none of tables with headers. -/
def asRead : Value → Value
  | .array _ items => .array false items
  | v => v

/-- The values that a document may have at its top level to read back. -/
inductive ReadsBackAtTop : Value → Prop where
  | plain {v : Value} (hplain : hasHeader v = false)
    (h : ReadsAs (nestingLimit - 1) (renderValue v) (asRead v)) : ReadsBackAtTop v
  | tables {tables : List Entries} (hne : tables ≠ []) (h : ∀ table ∈ tables, ReadsBack table) :
    ReadsBackAtTop (.array true (tables.map (.table .header)))

theorem ReadsBackAtTop.readsAs {v : Value} (h : ReadsBackAtTop v) (hplain : hasHeader v = false) :
    ReadsAs (nestingLimit - 1) (renderValue v) (asRead v) := by
  cases h with
  | plain _ hreads => exact hreads
  | tables hne => simp [hasHeader, hne] at hplain

/-- A document as it reads back: its plain values come first. -/
def reread (document : Entries) : Entries :=
  ((document.filter fun entry => !hasHeader entry.2).map fun entry => (entry.1, asRead entry.2)) ++
    document.filter fun entry => hasHeader entry.2

theorem keys_reread_nodup {document : Entries} (h : (document.map Prod.fst).Nodup) :
    ((reread document).map Prod.fst).Nodup := by
  have hperm : List.Perm
      ((document.filter fun entry => !hasHeader entry.2) ++
        document.filter fun entry => hasHeader entry.2) document := by
    simpa using List.filter_append_perm (fun entry => !hasHeader entry.2) document
  have hkeys : (reread document).map Prod.fst =
      ((document.filter fun entry => !hasHeader entry.2) ++
        document.filter fun entry => hasHeader entry.2).map Prod.fst := by
    simp [reread, Function.comp_def]
  rw [hkeys]
  exact ((hperm.map Prod.fst).nodup_iff).mpr h

theorem adds_headed {document : Entries} (h : ∀ entry ∈ document, ReadsBackAtTop entry.2) :
    Adds ((document.filter fun entry => hasHeader entry.2).flatMap renderSections)
      (document.filter fun entry => hasHeader entry.2) := by
  induction document with
  | nil => exact adds_nil
  | cons entry document ih =>
    obtain ⟨key, v⟩ := entry
    have hrest := ih fun entry hentry => h entry (List.mem_cons_of_mem _ hentry)
    cases h (key, v) List.mem_cons_self with
    | plain hplain => simpa [hplain] using hrest
    | @tables tables hne htables =>
      have hheader : hasHeader (.array true (tables.map (.table .header))) = true := by
        simp [hasHeader, hne]
      simpa [hheader] using (adds_tables key hne htables).append hrest

/-- The text of a document is read as the statements of its plain values, then of its sections. -/
theorem readsLines_render {document : Entries} {first : List Statement}
    {found : List (List Statement)}
    (hplain : ReadsLines (renderEntries (document.filter fun entry => !hasHeader entry.2)) first)
    (hheaded : List.Forall₂ ReadsLines
      ((document.filter fun entry => hasHeader entry.2).flatMap renderSections) found) :
    ∃ lines, render document = endLines lines ∧ ReadsLines lines (first ++ found.flatten) := by
  by_cases hempty : renderEntries (document.filter fun entry => !hasHeader entry.2) = []
  · rw [hempty] at hplain
    cases hplain
    simpa [render, hempty] using readsLines_intercalate hheaded
  · simpa [render, hempty] using readsLines_intercalate (.cons hplain hheaded)

/-- A document of plain values and arrays of tables reads back from its text. -/
theorem parse_render {document : Entries} (hkeys : (document.map Prod.fst).Nodup)
    (h : ∀ entry ∈ document, ReadsBackAtTop entry.2) :
    parse (render document) = some (reread document) := by
  let plain := document.filter fun entry => !hasHeader entry.2
  let read := plain.map fun entry => (entry.1, asRead entry.2)
  have hplain : ReadsLines (renderEntries plain) (assignments read) :=
    readsLines_assignments asRead fun entry hentry => by
      obtain ⟨hmem, hnone⟩ := List.mem_filter.mp hentry
      exact (h entry hmem).readsAs (by simpa using hnone)
  obtain ⟨found, hfound, hadds⟩ := adds_headed h
  obtain ⟨lines, htext, hlines⟩ := readsLines_render hplain hfound
  have hreread := keys_reread_nodup hkeys
  have hread : (read.map Prod.fst).Nodup := by
    rw [reread, List.map_append] at hreread
    exact (List.nodup_append.mp hreread).1
  -- the plain values are given while no table is open
  have hassign : (assignments read).foldlM Draft.apply ⟨[], []⟩ = some ⟨read, []⟩ :=
    foldlM_assignments isHole_root [] hread
  obtain ⟨last, hlast⟩ := hadds read [] hreread
  have hfold : (assignments read ++ found.flatten).foldlM Draft.apply ⟨[], []⟩ =
      some ⟨reread document, last⟩ := by
    rw [List.foldlM_append, hassign]
    exact hlast
  simp [parse, htext, statements_endLines hlines, hfold]

end SignedFlash.Toml
