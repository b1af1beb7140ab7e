import SignedFlash.Key.Table
import SignedFlash.Proofs.Powers
import Mathlib.Data.List.Induction
import Mathlib.Data.List.Nodup

/-!
# Tables of keys

A table of keys is built from entries, and entries are made of words that obey the rules of keys.
Whatever calls were made, and however many of them failed, a table holds the first entry that was
inserted for each key id and nothing else, and says so when it is asked. So a list makes a table
exactly if no key id is repeated in it, and the order of the list does not show.
-/

namespace SignedFlash

/-! ## Entries -/

/-- What an entry is made of. -/
structure KeyParts where
  name : String
  family : Family
  role : KeyRole
  keyId : Word
  modulus : List Word
  exponent : Word

def KeyParts.entry (parts : KeyParts) : Except Fault KeyEntry :=
  KeyEntry.new parts.name parts.family parts.role parts.keyId parts.modulus parts.exponent

/-- Whether an entry obeys the rules of keys. -/
structure KeyEntry.IsValid (entry : KeyEntry) : Prop where
  length : entry.key.modulus.toList.length = 96
  odd : Odd entry.key.modulus.toNat
  -- the product is minus one
  inverse : entry.keyId * entry.key.modulus.getD 0 = 0xffffffff
  exponent : entry.key.exponent.value = 3 ∨ entry.key.exponent.value = 65537

theorem Exponent.value_eq (exponent : Exponent) : exponent.value = 3 ∨ exponent.value = 65537 := by
  cases exponent with
  | three => exact Or.inl rfl
  | fermatFour => exact Or.inr rfl

theorem Exponent.ofWord_value (exponent : Exponent) : ofWord exponent.value = .ok exponent := by
  cases exponent <;> rfl

theorem Exponent.value_of_ofWord {w : Word} {exponent : Exponent} (h : ofWord w = .ok exponent) :
    exponent.value = w := by
  unfold ofWord at h
  split at h
  case isTrue hw =>
    obtain rfl := Except.ok.inj h
    exact hw.symm
  split at h
  case isTrue hw =>
    obtain rfl := Except.ok.inj h
    exact hw.symm
  case isFalse => exact nomatch h

namespace KeyEntry

-- The words of a key make an entry exactly if they obey the rules.
theorem new_toList (name : String) (family : Family) (role : KeyRole) (keyId : Word)
    (modulus : Number) (exponent : Exponent) :
    new name family role keyId modulus.toList exponent.value =
      (PublicKey.new keyId modulus exponent).map fun key => ⟨name, family, role, key⟩ := by
  rw [new, dif_pos modulus.length_toList, Exponent.ofWord_value]
  cases h : PublicKey.new keyId modulus exponent <;> simp [h] <;> rfl

/-- An entry is made of the words given, and it is made exactly if it obeys the rules. -/
theorem new_eq_ok_iff {name : String} {family : Family} {role : KeyRole} {keyId : Word}
    {modulus : List Word} {exponent : Word} {entry : KeyEntry} :
    new name family role keyId modulus exponent = .ok entry ↔
      entry.IsValid ∧ entry.name = name ∧ entry.family = family ∧ entry.role = role ∧
        entry.key.keyId = keyId ∧ entry.key.modulus.toList = modulus ∧
        entry.key.exponent.value = exponent := by
  constructor
  · intro hentry
    unfold new at hentry
    split at hentry
    case isFalse => exact nomatch hentry
    split at hentry
    case h_1 => exact nomatch hentry
    rename_i hexponent
    split at hentry
    case h_1 => exact nomatch hentry
    rename_i hkey
    obtain rfl := Except.ok.inj hentry
    obtain ⟨hbit, hinverse, rfl⟩ := PublicKey.new_eq_ok_iff.mp hkey
    exact ⟨⟨Words.length_toList _, Words.odd_toNat hbit, hinverse, Exponent.value_eq _⟩,
      rfl, rfl, rfl, rfl, rfl, Exponent.value_of_ofWord hexponent⟩
  · rintro ⟨hvalid, rfl, rfl, rfl, rfl, rfl, rfl⟩
    have hkey : PublicKey.new entry.key.keyId entry.key.modulus entry.key.exponent =
        .ok entry.key :=
      PublicKey.new_eq_ok_iff.mpr ⟨Words.odd_toNat_iff.mp hvalid.odd, hvalid.inverse, rfl⟩
    rw [new_toList, hkey]
    rfl

end KeyEntry

theorem KeyParts.isValid_of_entry {parts : KeyParts} {entry : KeyEntry}
    (hentry : parts.entry = .ok entry) : entry.IsValid :=
  (KeyEntry.new_eq_ok_iff.mp hentry).1

namespace KeyTable

/-! ## Looking up -/

theorem keyId_of_get? {table : KeyTable} {keyId : Word} {entry : KeyEntry}
    (h : table.get? keyId = some entry) : entry.keyId = keyId := by
  simpa using List.find?_some h

-- Where no key id is repeated, every entry is found.
theorem get?_eq_some {table : KeyTable} (hnodup : (table.entries.map KeyEntry.keyId).Nodup)
    {entry : KeyEntry} (hentry : entry ∈ table.entries) : table.get? entry.keyId = some entry := by
  cases hfind : table.get? entry.keyId with
  | none =>
    have hnone := List.find?_eq_none.mp hfind entry hentry
    simp at hnone
  | some found =>
    have hfound : found ∈ table.entries := List.mem_of_find?_eq_some hfind
    rw [List.inj_on_of_nodup_map hnodup hfound hentry (keyId_of_get? hfind)]

theorem get?_eq_none_iff_notMem {table : KeyTable} {keyId : Word} :
    table.get? keyId = none ↔ keyId ∉ table.entries.map KeyEntry.keyId := by
  simp [get?]

theorem get?_append (table : KeyTable) (entry : KeyEntry) (keyId : Word) :
    get? ⟨table.entries ++ [entry]⟩ keyId =
      (table.get? keyId).or (if entry.keyId = keyId then some entry else none) := by
  unfold get?
  rw [List.find?_append, List.find?_singleton]
  simp only [beq_iff_eq]

-- Two orders of the same entries answer alike.
theorem get?_congr_perm {entries entries' : List KeyEntry} (hperm : entries.Perm entries')
    (hnodup : (entries.map KeyEntry.keyId).Nodup) (keyId : Word) :
    get? ⟨entries'⟩ keyId = get? ⟨entries⟩ keyId := by
  have hkeyIds := hperm.map KeyEntry.keyId
  cases hget : get? ⟨entries⟩ keyId with
  | none =>
    rw [get?_eq_none_iff_notMem] at hget ⊢
    rwa [← hkeyIds.mem_iff]
  | some entry =>
    have hentry : entry ∈ entries' := hperm.mem_iff.mp (List.mem_of_find?_eq_some hget)
    rw [← keyId_of_get? hget]
    exact get?_eq_some (hkeyIds.nodup_iff.mp hnodup) hentry

theorem resolve_congr {table table' : KeyTable} {h : Header}
    (hget : table'.get? h.keyId = table.get? h.keyId) : table'.resolve h = table.resolve h := by
  unfold resolve
  rw [hget]

theorem resolve_of_get? {table : KeyTable} {h : Header} {entry : KeyEntry}
    (hget : table.get? h.keyId = some entry) :
    table.resolve h = ⟨entry.key, .table entry.name entry.family entry.role⟩ := by
  unfold resolve
  rw [hget]

/-! ## Inserting -/

/-- An insertion is refused if there is an entry with the key id, and else adds one at the end. -/
theorem insert_cases (table : KeyTable) (entry : KeyEntry) :
    (∃ stored, table.get? entry.keyId = some stored ∧
      table.insert entry = .error .duplicateKeyId) ∨
    (table.get? entry.keyId = none ∧ table.insert entry = .ok ⟨table.entries ++ [entry]⟩) := by
  unfold insert
  cases hget : table.get? entry.keyId with
  | some stored => exact Or.inl ⟨stored, rfl, rfl⟩
  | none => exact Or.inr ⟨rfl, rfl⟩

theorem insert_eq_error_iff {table : KeyTable} {entry : KeyEntry} :
    (∃ fault, table.insert entry = .error fault) ↔
      ∃ stored ∈ table.entries, stored.keyId = entry.keyId := by
  rcases table.insert_cases entry with ⟨stored, hget, hinsert⟩ | ⟨hget, hinsert⟩
  · rw [hinsert]
    exact ⟨fun _ => ⟨stored, List.mem_of_find?_eq_some hget, keyId_of_get? hget⟩,
      fun _ => ⟨_, rfl⟩⟩
  · rw [hinsert, ← List.mem_map]
    rw [get?_eq_none_iff_notMem] at hget
    exact ⟨fun ⟨_, h⟩ => (nomatch h), fun h => absurd h hget⟩

-- An insertion that is not refused repeats no key id.
theorem nodup_keyIds_append {table : KeyTable} {entry : KeyEntry}
    (hnodup : (table.entries.map KeyEntry.keyId).Nodup) (h : table.get? entry.keyId = none) :
    ((table.entries ++ [entry]).map KeyEntry.keyId).Nodup := by
  rw [List.map_append, List.nodup_append_comm]
  exact List.nodup_cons.mpr ⟨get?_eq_none_iff_notMem.mp h, hnodup⟩

-- Inserting a list of entries succeeds exactly if this repeats no key id.
theorem foldlM_insert_eq_ok_iff {entries : List KeyEntry} (table : KeyTable) {made : KeyTable}
    (hnodup : (table.entries.map KeyEntry.keyId).Nodup) :
    entries.foldlM insert table = .ok made ↔
      ((table.entries ++ entries).map KeyEntry.keyId).Nodup ∧
        made = ⟨table.entries ++ entries⟩ := by
  induction entries generalizing table with
  | nil =>
    rw [List.foldlM_nil, List.append_nil]
    exact ⟨fun h => ⟨hnodup, (Except.ok.inj h).symm⟩, fun h => congrArg Except.ok h.2.symm⟩
  | cons entry entries ih =>
    have hsplit : table.entries ++ entry :: entries = (table.entries ++ [entry]) ++ entries :=
      List.append_cons ..
    rw [List.foldlM_cons]
    rcases table.insert_cases entry with ⟨stored, hget, hinsert⟩ | ⟨hget, hinsert⟩
    · -- the key id is there already, and stays there
      rw [hinsert]
      refine ⟨fun h => (nomatch h), fun ⟨hall, _⟩ => ?_⟩
      have hnew : entry.keyId ∉ table.entries.map KeyEntry.keyId := by
        rw [List.map_append, List.map_cons, List.nodup_middle, List.nodup_cons] at hall
        exact fun hmem => hall.1 (List.mem_append_left _ hmem)
      exact absurd (get?_eq_none_iff_notMem.mpr hnew) (by rw [hget]; exact nofun)
    · rw [hinsert, hsplit]
      exact ih ⟨table.entries ++ [entry]⟩ (nodup_keyIds_append hnodup hget)

theorem ofList_eq_ok_iff {entries : List KeyEntry} {table : KeyTable} :
    ofList entries = .ok table ↔
      (entries.map KeyEntry.keyId).Nodup ∧ table = ⟨entries⟩ :=
  foldlM_insert_eq_ok_iff empty List.nodup_nil

/-! ## Any sequence of calls -/

/-- A call of someone who builds a table. -/
inductive BuildCall where
  -- Makes an entry.
  | make (parts : KeyParts)
  -- Inserts the entry that was made as number `place`, counted from zero.
  | insert (place : Nat)

/-- What someone who builds a table has. -/
structure Builder where
  -- The entries made, in order.
  made : List KeyEntry
  table : KeyTable
  -- Every entry that was to be inserted, and whether it was, in order.
  insertions : List (KeyEntry × Except Fault Unit)

namespace Builder

def start : Builder := ⟨[], empty, []⟩

-- Inserts an entry. A table that refuses it is kept as it is.
def insert (b : Builder) (entry : KeyEntry) : Builder :=
  match b.table.insert entry with
  | .ok table => { b with table, insertions := b.insertions ++ [(entry, .ok ())] }
  | .error fault => { b with insertions := b.insertions ++ [(entry, .error fault)] }

def next (b : Builder) : BuildCall → Builder
  | .make parts =>
    match parts.entry with
    | .ok entry => { b with made := b.made ++ [entry] }
    | .error _ => b
  | .insert place =>
    match b.made[place]? with
    | some entry => b.insert entry
    | none => b

-- What there is after a sequence of calls.
def after (calls : List BuildCall) : Builder := calls.foldl next start

theorem after_append (calls more : List BuildCall) :
    after (calls ++ more) = more.foldl next (after calls) := List.foldl_append ..

/-- A call changes nothing, or makes an entry, or inserts one that was made. -/
theorem next_cases (b : Builder) (call : BuildCall) :
    b.next call = b ∨
    (∃ parts entry, call = .make parts ∧ parts.entry = .ok entry ∧
      b.next call = { b with made := b.made ++ [entry] }) ∨
    ∃ entry ∈ b.made, b.next call = b.insert entry := by
  cases call with
  | make parts =>
    cases hparts : parts.entry with
    | error fault => exact Or.inl (by rw [next, hparts])
    | ok entry => exact Or.inr (Or.inl ⟨parts, entry, rfl, hparts, by rw [next, hparts]⟩)
  | insert place =>
    cases hplace : b.made[place]? with
    | none => exact Or.inl (by rw [next, hplace])
    | some entry =>
      exact Or.inr (Or.inr ⟨entry, List.mem_of_getElem? hplace, by rw [next, hplace]⟩)

/-- What holds of a builder after the calls given. -/
structure IsSound (calls : List BuildCall) (b : Builder) : Prop where
  made : ∀ entry ∈ b.made, ∃ parts, .make parts ∈ calls ∧ parts.entry = .ok entry
  stored : ∀ entry ∈ b.table.entries, entry ∈ b.made
  nodup : (b.table.entries.map KeyEntry.keyId).Nodup
  size : b.table.size = b.insertions.countP fun insertion => insertion.2.isOk
  -- the first of all entries with a key id is the one that is found
  first : ∀ keyId, b.table.get? keyId =
    (b.insertions.map Prod.fst).find? fun entry => entry.keyId == keyId

variable {calls : List BuildCall} {b : Builder}

theorem IsSound.weaken (h : b.IsSound calls) (call : BuildCall) : b.IsSound (calls ++ [call]) where
  made entry hentry := by
    obtain ⟨parts, hparts, hmade⟩ := h.made entry hentry
    exact ⟨parts, List.mem_append_left _ hparts, hmade⟩
  stored := h.stored
  nodup := h.nodup
  size := h.size
  first := h.first

theorem IsSound.insert (h : b.IsSound calls) {entry : KeyEntry} (hentry : entry ∈ b.made) :
    (b.insert entry).IsSound calls := by
  unfold Builder.insert
  rcases b.table.insert_cases entry with ⟨stored, hget, hinsert⟩ | ⟨hget, hinsert⟩
  · rw [hinsert]
    refine ⟨h.made, h.stored, h.nodup, ?_, fun keyId => ?_⟩
    · rw [List.countP_append]
      exact h.size
    · -- an entry that is refused comes after one with its key id
      rw [List.map_append, List.find?_append, ← h.first]
      cases hfound : b.table.get? keyId with
      | some found => rfl
      | none =>
        have hne : entry.keyId ≠ keyId := by
          rintro rfl
          exact nomatch hget.symm.trans hfound
        simp [hne]
  · rw [hinsert]
    refine ⟨h.made, fun other hother => ?_, nodup_keyIds_append h.nodup hget, ?_,
      fun keyId => ?_⟩
    · rcases List.mem_append.mp hother with hold | hnew
      · exact h.stored other hold
      · rwa [List.mem_singleton.mp hnew]
    · rw [List.countP_append, ← h.size]
      exact List.length_append
    · rw [get?_append, h.first, List.map_append, List.find?_append, List.map_singleton,
        List.find?_singleton]
      simp only [beq_iff_eq]

theorem IsSound.next (h : b.IsSound calls) (call : BuildCall) :
    (b.next call).IsSound (calls ++ [call]) := by
  rcases b.next_cases call with
    hnext | ⟨parts, entry, hcall, hparts, hnext⟩ | ⟨entry, hentry, hnext⟩
  · rw [hnext]
    exact h.weaken call
  · obtain ⟨hmade, hstored, hnodup, hsize, hfirst⟩ := h.weaken call
    rw [hnext]
    refine ⟨fun other hother => ?_, fun other hother => ?_, hnodup, hsize, hfirst⟩
    · rcases List.mem_append.mp hother with hold | hnew
      · exact hmade other hold
      · rw [List.mem_singleton.mp hnew]
        exact ⟨parts, List.mem_append_right _ (List.mem_singleton.mpr hcall.symm), hparts⟩
    · exact List.mem_append_left _ (hstored other hother)
  · rw [hnext]
    exact (h.weaken call).insert hentry

theorem isSound_after (calls : List BuildCall) : (after calls).IsSound calls := by
  -- on the calls, from the last one back
  induction calls using List.reverseRecOn with
  | nil => exact ⟨nofun, nofun, List.nodup_nil, rfl, fun _ => rfl⟩
  | append_singleton calls call ih =>
    rw [after_append]
    exact ih.next call

theorem get?_insert {keyId : Word} {stored : KeyEntry} (h : b.table.get? keyId = some stored)
    (entry : KeyEntry) : (b.insert entry).table.get? keyId = some stored := by
  unfold Builder.insert
  rcases b.table.insert_cases entry with ⟨_, _, hinsert⟩ | ⟨_, hinsert⟩
  · rw [hinsert]
    exact h
  · rw [hinsert, get?_append, h, Option.some_or]

-- What is found once is found ever after.
theorem get?_next {keyId : Word} {stored : KeyEntry} (h : b.table.get? keyId = some stored)
    (call : BuildCall) : (b.next call).table.get? keyId = some stored := by
  rcases b.next_cases call with hnext | ⟨_, _, _, _, hnext⟩ | ⟨entry, _, hnext⟩
  · rwa [hnext]
  · rwa [hnext]
  · rw [hnext]
    exact get?_insert h entry

theorem get?_foldl_next {keyId : Word} {stored : KeyEntry} (h : b.table.get? keyId = some stored)
    (more : List BuildCall) : (more.foldl next b).table.get? keyId = some stored := by
  induction more generalizing b with
  | nil => exact h
  | cons call more ih => exact ih (get?_next h call)

theorem table_insert_of_error {entry : KeyEntry}
    (h : ∃ fault, b.table.insert entry = .error fault) : (b.insert entry).table = b.table := by
  obtain ⟨fault, hfault⟩ := h
  unfold Builder.insert
  rw [hfault]

end Builder

end KeyTable

/-- A table holds valid entries under their own key ids, the first that was inserted for each, in
number those insertions that succeeded. A list of entries makes a table exactly if no key id is
repeated, whatever its order. The key that a header carries is not used if the table has one. -/
theorem key_tables_are_consistent :
    (∀ calls : List KeyTable.BuildCall,
      let b := KeyTable.Builder.after calls
      (∀ entry ∈ b.table.entries, entry.IsValid ∧ b.table.get? entry.keyId = some entry ∧
        ∃ parts, .make parts ∈ calls ∧ parts.entry = .ok entry) ∧
      b.table.size = b.insertions.countP (fun insertion => insertion.2.isOk) ∧
      (∀ entry, (∃ fault, b.table.insert entry = .error fault) ↔
        ∃ stored ∈ b.table.entries, stored.keyId = entry.keyId) ∧
      (∀ entry, (∃ fault, b.table.insert entry = .error fault) →
        ∀ keyId, (b.insert entry).table.get? keyId = b.table.get? keyId) ∧
      (∀ keyId, b.table.get? keyId =
        (b.insertions.map Prod.fst).find? fun entry => entry.keyId == keyId) ∧
      (∀ keyId stored, b.table.get? keyId = some stored → ∀ more,
        (KeyTable.Builder.after (calls ++ more)).table.get? keyId = some stored)) ∧
    (∀ entries : List KeyEntry,
      ((∃ table, KeyTable.ofList entries = .ok table) ↔
        (entries.map KeyEntry.keyId).Nodup) ∧
      ∀ table, KeyTable.ofList entries = .ok table →
        (∀ entry ∈ entries, table.get? entry.keyId = some entry) ∧
        ∀ entries', entries.Perm entries' → ∃ table', KeyTable.ofList entries' = .ok table' ∧
          (∀ keyId, table'.get? keyId = table.get? keyId) ∧
          ∀ h, table'.resolve h = table.resolve h) ∧
    (∀ (table : KeyTable) (h : Header) (stored : KeyEntry), table.get? h.keyId = some stored →
      table.resolve h = ⟨stored.key, .table stored.name stored.family stored.role⟩ ∧
      ∀ modulus, table.resolve { h with key := modulus } = table.resolve h) := by
  refine ⟨fun calls => ?_, fun entries => ?_, fun table h stored hget => ?_⟩
  · have hsound := KeyTable.Builder.isSound_after calls
    refine ⟨fun entry hentry => ?_, hsound.size, fun entry => KeyTable.insert_eq_error_iff,
      fun entry hfails keyId => ?_, hsound.first, fun keyId stored hstored more => ?_⟩
    · obtain ⟨parts, hparts, hmade⟩ := hsound.made entry (hsound.stored entry hentry)
      exact ⟨KeyParts.isValid_of_entry hmade, KeyTable.get?_eq_some hsound.nodup hentry,
        parts, hparts, hmade⟩
    · rw [KeyTable.Builder.table_insert_of_error hfails]
    · rw [KeyTable.Builder.after_append]
      exact KeyTable.Builder.get?_foldl_next hstored more
  · refine ⟨?_, fun table htable => ?_⟩
    · simp only [KeyTable.ofList_eq_ok_iff, exists_and_left, exists_eq, and_true]
    · obtain ⟨hnodup, rfl⟩ := KeyTable.ofList_eq_ok_iff.mp htable
      refine ⟨fun entry hentry => KeyTable.get?_eq_some hnodup hentry, fun entries' hperm => ?_⟩
      have hnodup' : (entries'.map KeyEntry.keyId).Nodup :=
        (hperm.map KeyEntry.keyId).nodup_iff.mp hnodup
      exact ⟨⟨entries'⟩, KeyTable.ofList_eq_ok_iff.mpr ⟨hnodup', rfl⟩,
        KeyTable.get?_congr_perm hperm hnodup,
        fun h => KeyTable.resolve_congr (KeyTable.get?_congr_perm hperm hnodup h.keyId)⟩
  · refine ⟨KeyTable.resolve_of_get? hget, fun modulus => ?_⟩
    rw [KeyTable.resolve_of_get? hget]
    exact KeyTable.resolve_of_get? (h := { h with key := modulus }) hget

/-- Of two entries with one key id, inserted one after the other, the first is kept. -/
theorem second_entry_is_refused :
    let modulus : List Word := 3 :: List.replicate 95 0
    let first : KeyParts := ⟨"first", .haven, .rom, 0x55555555, modulus, 3⟩
    let again : KeyParts := ⟨"again", .citadel, .loader, 0x55555555, modulus, 65537⟩
    let b := KeyTable.Builder.after [.make again, .make first, .insert 1, .insert 0]
    b.insertions.map (fun insertion => (insertion.1.name, insertion.2.isOk)) =
      [("first", true), ("again", false)] ∧
    b.table.size = 1 ∧
    ∃ stored, b.table.get? 0x55555555 = some stored ∧ stored.name = "first" ∧ stored.IsValid := by
  intro modulus first again b
  have hinsertions : b.insertions.map (fun insertion => (insertion.1.name, insertion.2.isOk)) =
      [("first", true), ("again", false)] := by decide +kernel
  obtain ⟨hstored, hsize, -⟩ := key_tables_are_consistent.1
    [.make again, .make first, .insert 1, .insert 0]
  have hfound : (b.table.get? 0x55555555).map KeyEntry.name = some "first" := by decide +kernel
  obtain ⟨stored, hget, hname⟩ := Option.map_eq_some_iff.mp hfound
  exact ⟨hinsertions, hsize.trans (by decide +kernel), stored, hget, hname,
    (hstored stored (List.mem_of_find?_eq_some hget)).1⟩

end SignedFlash
