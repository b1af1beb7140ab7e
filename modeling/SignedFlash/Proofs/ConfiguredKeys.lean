import SignedFlash.Settings
import SignedFlash.Proofs.KeyTables
import Mathlib.Data.List.Forall2

/-!
# The keys of a configuration

A configuration that gives its keys in words makes a key table exactly if every key obeys the rules
of keys and no two of them have one key id. The table then holds these keys and no others. Else the
error names the first key at fault: the first that breaks the rules, or that has the key id of a key
before it, whatever is wrong with the keys after it.
-/

namespace SignedFlash

/-! ## Folds that may fail -/

section

variable {α β ε : Type} {f : β → α → Except ε β} {x : α} {xs : List α} {b c : β} {e : ε}

theorem foldlM_nil_eq_ok_iff : [].foldlM f b = .ok c ↔ b = c :=
  ⟨Except.ok.inj, congrArg Except.ok⟩

theorem foldlM_cons_eq_ok_iff :
    (x :: xs).foldlM f b = .ok c ↔ ∃ next, f b x = .ok next ∧ xs.foldlM f next = .ok c := by
  rw [List.foldlM_cons]
  cases h : f b x with
  | error e => simp [bind, Except.bind]
  | ok next => simp [bind, Except.bind]

theorem foldlM_cons_eq_error_iff :
    (x :: xs).foldlM f b = .error e ↔
      f b x = .error e ∨ ∃ next, f b x = .ok next ∧ xs.foldlM f next = .error e := by
  rw [List.foldlM_cons]
  cases h : f b x with
  | error e => simp [bind, Except.bind]
  | ok next => simp [bind, Except.bind]

/-- A fold that fails does so at some element, after a fold over those before it that succeeds. -/
theorem exists_of_foldlM_eq_error {l : List α} (h : l.foldlM f b = .error e) :
    ∃ before x after mid, l = before ++ x :: after ∧ before.foldlM f b = .ok mid ∧
      f mid x = .error e := by
  induction l generalizing b with
  | nil => exact nomatch h
  | cons x l ih =>
    rcases foldlM_cons_eq_error_iff.mp h with hx | ⟨next, hx, hl⟩
    · exact ⟨[], x, l, b, rfl, rfl, hx⟩
    · obtain ⟨before, y, after, mid, rfl, hbefore, hy⟩ := ih hl
      exact ⟨x :: before, y, after, mid, rfl, foldlM_cons_eq_ok_iff.mpr ⟨next, hx, hbefore⟩, hy⟩

end

/-! ## Keys in words -/

/-- Whether a configured key has the key id and the modulus given, and both, with the exponent, obey
the rules of keys. -/
structure KeySetting.IsGivenBy (setting : KeySetting) (keyId : Word) (modulus : List Word) :
    Prop where
  hasKeyId : setting.keyId = some keyId
  hasModulus : setting.modulus = some modulus
  length : modulus.length = 96
  odd : Odd (numberOfWords modulus)
  exponent : setting.exponent = none ∨ setting.exponent = some 3 ∨ setting.exponent = some 65537
  -- the product is minus one
  inverse : keyId * modulus.getD 0 0 = 0xffffffff

/-- Whether a key that is given in words is valid by itself. -/
def KeySetting.IsWellFormed (setting : KeySetting) : Prop :=
  ∃ keyId modulus, setting.IsGivenBy keyId modulus

/-- An entry of a key table as a configuration gives it in words. -/
def KeyEntry.toSetting (entry : KeyEntry) : KeySetting where
  name := entry.name
  family := entry.family
  role := entry.role
  keyId := some entry.key.keyId
  exponent := some entry.key.exponent.value
  modulus := some entry.key.modulus.toList
  pem := none

-- The key ids of settings are those of the entries they were made from.
theorem map_keyId_toSetting (entries : List KeyEntry) :
    (entries.map KeyEntry.toSetting).map KeySetting.keyId =
      (entries.map KeyEntry.keyId).map some := by
  rw [List.map_map, List.map_map]
  rfl

namespace KeySetting

-- A configured key with its exponent written out, which is 3 where there is none.
def withExponent (setting : KeySetting) : KeySetting :=
  { setting with exponent := some (setting.exponent.getD 3) }

theorem map_keyId_withExponent (keys : List KeySetting) :
    (keys.map withExponent).map keyId = keys.map keyId := List.map_map ..

variable {setting : KeySetting} {reader : KeyFileReader} {entry : KeyEntry}

/-- A key in words makes the entry that has these words, if they obey the rules. -/
theorem toEntry_eq_ok_iff (hpem : setting.pem = none) :
    setting.toEntry reader = .ok entry ↔
      entry.IsValid ∧ entry.toSetting = setting.withExponent := by
  obtain ⟨name, family, role, keyId, exponent, modulus, pem⟩ := setting
  obtain rfl : pem = none := hpem
  cases modulus with
  | none => simp [toEntry, KeyEntry.toSetting, withExponent]
  | some modulus =>
    cases keyId with
    | none => simp [toEntry, KeyEntry.toSetting, withExponent]
    | some keyId =>
      have hmake : toEntry ⟨name, family, role, some keyId, exponent, some modulus, none⟩ reader =
          .ok entry ↔
          KeyEntry.new name family role keyId modulus (exponent.getD 3) = .ok entry := by
        show (KeyEntry.new ..).mapError _ = _ ↔ _
        cases KeyEntry.new name family role keyId modulus (exponent.getD 3) <;>
          simp [Except.mapError]
      rw [hmake, KeyEntry.new_eq_ok_iff]
      simp only [KeyEntry.toSetting, withExponent, KeySetting.mk.injEq, Option.some.injEq, and_true]
      tauto

theorem IsGivenBy.exists_exponent {keyId : Word} {modulus : List Word}
    (h : setting.IsGivenBy keyId modulus) :
    ∃ exponent : Exponent, exponent.value = setting.exponent.getD 3 := by
  rcases h.exponent with hnone | hthree | hfermat
  · exact ⟨.three, by rw [hnone]; rfl⟩
  · exact ⟨.three, by rw [hthree]; rfl⟩
  · exact ⟨.fermatFour, by rw [hfermat]; rfl⟩

theorem isWellFormed_iff (reader : KeyFileReader) (hpem : setting.pem = none) :
    setting.IsWellFormed ↔ ∃ entry, setting.toEntry reader = .ok entry := by
  simp only [toEntry_eq_ok_iff hpem]
  constructor
  · rintro ⟨keyId, modulus, h⟩
    obtain ⟨exponent, hexponent⟩ := h.exists_exponent
    let key : PublicKey := ⟨keyId, ⟨modulus, h.length⟩, exponent⟩
    refine ⟨⟨setting.name, setting.family, setting.role, key⟩,
      ⟨h.length, h.odd, h.inverse, Exponent.value_eq _⟩, ?_⟩
    simp only [KeyEntry.toSetting, withExponent, h.hasKeyId, h.hasModulus, hpem, ← hexponent, key]
  · rintro ⟨entry, hvalid, hsetting⟩
    have hkeyId := congrArg KeySetting.keyId hsetting
    have hmodulus := congrArg KeySetting.modulus hsetting
    have hexponent : some entry.key.exponent.value = some (setting.exponent.getD 3) :=
      congrArg KeySetting.exponent hsetting
    refine ⟨entry.key.keyId, entry.key.modulus.toList, hkeyId.symm, hmodulus.symm, hvalid.length,
      hvalid.odd, ?_, hvalid.inverse⟩
    cases hgiven : setting.exponent with
    | none => exact Or.inl rfl
    | some exponent =>
      rw [hgiven, Option.getD_some] at hexponent
      rw [← hexponent]
      simpa using hvalid.exponent

end KeySetting

namespace KeyTable

variable {reader : KeyFileReader} {table made : KeyTable} {keys : List KeySetting}

/-! ## Adding keys -/

/-- A key is invalid if it makes no entry, it is refused if it repeats a key id, and else its entry
comes last in the table. -/
theorem addSetting_cases (reader : KeyFileReader) (table : KeyTable) (setting : KeySetting) :
    (∃ reason, setting.toEntry reader = .error reason ∧
      table.addSetting reader setting = .error (.invalidKey setting.name reason)) ∨
    ∃ entry, setting.toEntry reader = .ok entry ∧
      ((table.insert entry = .error .duplicateKeyId ∧
          entry.keyId ∈ table.entries.map KeyEntry.keyId ∧
          table.addSetting reader setting = .error (.refused setting.name .duplicateKeyId)) ∨
        ∃ made, table.insert entry = .ok made ∧ table.addSetting reader setting = .ok made) := by
  cases hentry : setting.toEntry reader with
  | error reason => exact Or.inl ⟨reason, rfl, by rw [addSetting, hentry]⟩
  | ok entry =>
    have hadd : table.addSetting reader setting =
        (table.insert entry).mapError (.refused setting.name) := by
      rw [addSetting, hentry]
    refine Or.inr ⟨entry, rfl, ?_⟩
    rcases table.insert_cases entry with ⟨stored, hget, hinsert⟩ | ⟨-, hinsert⟩
    · have hmem : entry.keyId ∈ table.entries.map KeyEntry.keyId :=
        List.mem_map.mpr ⟨stored, List.mem_of_find?_eq_some hget, keyId_of_get? hget⟩
      exact Or.inl ⟨hinsert, hmem, by rw [hadd, hinsert]; rfl⟩
    · exact Or.inr ⟨_, hinsert, by rw [hadd, hinsert]; rfl⟩

theorem addSetting_eq_ok_iff {setting : KeySetting} :
    table.addSetting reader setting = .ok made ↔
      ∃ entry, setting.toEntry reader = .ok entry ∧ table.insert entry = .ok made := by
  rcases addSetting_cases reader table setting with
    ⟨reason, hentry, hadd⟩ | ⟨entry, hentry, ⟨hinsert, -, hadd⟩ | ⟨next, hinsert, hadd⟩⟩
  · simp [hentry, hadd]
  · simp [hentry, hinsert, hadd]
  · simp [hentry, hinsert, hadd]

-- Adding keys is inserting the entries that they make, if they all make one.
theorem foldlM_addSetting_eq_ok_iff :
    keys.foldlM (addSetting reader) table = .ok made ↔
      ∃ entries, List.Forall₂ (fun key entry => key.toEntry reader = .ok entry) keys entries ∧
        entries.foldlM insert table = .ok made := by
  induction keys generalizing table with
  | nil =>
    simp only [List.forall₂_nil_left_iff, exists_eq_left, foldlM_nil_eq_ok_iff]
  | cons key keys ih =>
    simp only [foldlM_cons_eq_ok_iff, addSetting_eq_ok_iff, ih, List.forall₂_cons_left_iff]
    constructor
    · rintro ⟨next, ⟨entry, hentry, hinsert⟩, entries, hentries, hfold⟩
      exact ⟨entry :: entries, ⟨entry, entries, hentry, hentries, rfl⟩,
        foldlM_cons_eq_ok_iff.mpr ⟨next, hinsert, hfold⟩⟩
    · rintro ⟨_, ⟨entry, entries, hentry, hentries, rfl⟩, hfold⟩
      obtain ⟨next, hinsert, hfold⟩ := foldlM_cons_eq_ok_iff.mp hfold
      exact ⟨next, ⟨entry, hentry, hinsert⟩, entries, hentries, hfold⟩

end KeyTable

/-! ## All keys -/

variable {reader : KeyFileReader} {keys : List KeySetting}

/-- The entries that keys in words make are the valid ones with these words. -/
theorem forall₂_toEntry_iff (hpem : ∀ key ∈ keys, key.pem = none) {entries : List KeyEntry} :
    List.Forall₂ (fun key entry => key.toEntry reader = .ok entry) keys entries ↔
      (∀ entry ∈ entries, entry.IsValid) ∧
        entries.map KeyEntry.toSetting = keys.map KeySetting.withExponent := by
  induction keys generalizing entries with
  | nil =>
    rw [List.forall₂_nil_left_iff, List.map_nil, List.map_eq_nil_iff]
    exact ⟨fun h => ⟨by rw [h]; exact nofun, h⟩, fun h => h.2⟩
  | cons key keys ih =>
    rw [List.forall_mem_cons] at hpem
    simp only [List.forall₂_cons_left_iff, KeySetting.toEntry_eq_ok_iff hpem.1, ih hpem.2]
    constructor
    · rintro ⟨entry, entries, ⟨hvalid, hsetting⟩, ⟨hvalids, hsettings⟩, rfl⟩
      exact ⟨List.forall_mem_cons.mpr ⟨hvalid, hvalids⟩, by
        rw [List.map_cons, List.map_cons, hsetting, hsettings]⟩
    · rintro ⟨hvalids, hsettings⟩
      obtain ⟨entry, entries, rfl, hsetting, hsettings⟩ := List.map_eq_cons_iff.mp hsettings
      rw [List.forall_mem_cons] at hvalids
      exact ⟨entry, entries, ⟨hvalids.1, hsetting⟩, ⟨hvalids.2, hsettings⟩, rfl⟩

theorem exists_entries_iff (reader : KeyFileReader) (hpem : ∀ key ∈ keys, key.pem = none) :
    (∃ entries, List.Forall₂ (fun key entry => key.toEntry reader = .ok entry) keys entries) ↔
      ∀ key ∈ keys, key.IsWellFormed := by
  induction keys with
  | nil => simp
  | cons key keys ih =>
    rw [List.forall_mem_cons] at hpem ⊢
    rw [← ih hpem.2, KeySetting.isWellFormed_iff reader hpem.1]
    simp only [List.forall₂_cons_left_iff]
    constructor
    · rintro ⟨_, entry, entries, hentry, hentries, -⟩
      exact ⟨⟨entry, hentry⟩, entries, hentries⟩
    · rintro ⟨⟨entry, hentry⟩, entries, hentries⟩
      exact ⟨entry :: entries, entry, entries, hentry, hentries, rfl⟩

-- Entries repeat no key id exactly if the keys that they were made from repeat none.
theorem nodup_keyIds_iff {entries : List KeyEntry}
    (hsettings : entries.map KeyEntry.toSetting = keys.map KeySetting.withExponent) :
    (entries.map KeyEntry.keyId).Nodup ↔ (keys.map KeySetting.keyId).Nodup := by
  rw [← KeySetting.map_keyId_withExponent, ← hsettings, map_keyId_toSetting]
  exact (List.nodup_map_iff (Option.some_injective Word)).symm

namespace KeyTable

/-- The table of keys in words has these keys and no others. -/
theorem foldlM_addSetting_empty_eq_ok_iff (hpem : ∀ key ∈ keys, key.pem = none)
    {made : KeyTable} :
    keys.foldlM (addSetting reader) empty = .ok made ↔
      (keys.map KeySetting.keyId).Nodup ∧ (∀ entry ∈ made.entries, entry.IsValid) ∧
        made.entries.map KeyEntry.toSetting = keys.map KeySetting.withExponent := by
  simp only [foldlM_addSetting_eq_ok_iff, forall₂_toEntry_iff hpem]
  constructor
  · rintro ⟨entries, ⟨hvalid, hsettings⟩, hfold⟩
    obtain ⟨hnodup, rfl⟩ := ofList_eq_ok_iff.mp hfold
    exact ⟨(nodup_keyIds_iff hsettings).mp hnodup, hvalid, hsettings⟩
  · rintro ⟨hnodup, hvalid, hsettings⟩
    exact ⟨made.entries, ⟨hvalid, hsettings⟩,
      ofList_eq_ok_iff.mpr ⟨(nodup_keyIds_iff hsettings).mpr hnodup, rfl⟩⟩

/-- Keys in words make a table exactly if each is well-formed and no two have one key id. -/
theorem exists_foldlM_addSetting_iff (reader : KeyFileReader)
    (hpem : ∀ key ∈ keys, key.pem = none) :
    (∃ made, keys.foldlM (addSetting reader) empty = .ok made) ↔
      (∀ key ∈ keys, key.IsWellFormed) ∧ (keys.map KeySetting.keyId).Nodup := by
  simp only [foldlM_addSetting_empty_eq_ok_iff hpem, ← exists_entries_iff reader hpem,
    forall₂_toEntry_iff hpem]
  constructor
  · rintro ⟨made, hnodup, hentries⟩
    exact ⟨⟨made.entries, hentries⟩, hnodup⟩
  · rintro ⟨⟨entries, hentries⟩, hnodup⟩
    exact ⟨⟨entries⟩, hnodup, hentries⟩

end KeyTable

/-- The first key at fault: those before it are well-formed and have different key ids, and it is
not well-formed or repeats one of these. -/
structure IsFirstFault (keys before : List KeySetting) (key : KeySetting) : Prop where
  listed : ∃ after, keys = before ++ key :: after
  wellFormed : ∀ other ∈ before, other.IsWellFormed
  nodup : (before.map KeySetting.keyId).Nodup
  fault : ¬ key.IsWellFormed ∨ key.keyId ∈ before.map KeySetting.keyId

namespace KeyTable

/-- What is reported of the first key at fault. -/
theorem exists_firstFault (hpem : ∀ key ∈ keys, key.pem = none) {error : KeyTableError}
    (herror : keys.foldlM (addSetting reader) empty = .error error) :
    ∃ before key, IsFirstFault keys before key ∧
      ((∃ reason, key.toEntry reader = .error reason ∧ error = .invalidKey key.name reason) ∨
        key.IsWellFormed ∧ error = .refused key.name .duplicateKeyId) := by
  obtain ⟨before, key, after, made, rfl, hmade, hadd⟩ := exists_of_foldlM_eq_error herror
  rw [List.forall_mem_append, List.forall_mem_cons] at hpem
  obtain ⟨hbefore, hkey, -⟩ := hpem
  obtain ⟨hwellFormed, hnodup⟩ := (exists_foldlM_addSetting_iff reader hbefore).mp ⟨made, hmade⟩
  have hfirst (hfault : ¬ key.IsWellFormed ∨ key.keyId ∈ before.map KeySetting.keyId) :
      IsFirstFault (before ++ key :: after) before key :=
    ⟨⟨after, rfl⟩, hwellFormed, hnodup, hfault⟩
  refine ⟨before, key, ?_⟩
  rcases addSetting_cases reader made key with
    ⟨reason, hentry, hcase⟩ | ⟨entry, hentry, ⟨-, hmem, hcase⟩ | ⟨next, -, hcase⟩⟩
  · -- the key makes no entry
    have hmalformed : ¬ key.IsWellFormed := by
      rw [KeySetting.isWellFormed_iff reader hkey, hentry]
      exact fun ⟨_, h⟩ => nomatch h
    exact ⟨hfirst (Or.inl hmalformed), Or.inl ⟨reason, hentry,
      Except.error.inj (hadd.symm.trans hcase)⟩⟩
  · -- its key id is that of an entry made before
    obtain ⟨-, -, hsettings⟩ := (foldlM_addSetting_empty_eq_ok_iff hbefore).mp hmade
    have hkeyId : some entry.keyId = key.keyId :=
      congrArg KeySetting.keyId ((KeySetting.toEntry_eq_ok_iff hkey).mp hentry).2
    have hrepeats : key.keyId ∈ before.map KeySetting.keyId := by
      rw [← KeySetting.map_keyId_withExponent, ← hsettings, map_keyId_toSetting, ← hkeyId]
      exact List.mem_map_of_mem hmem
    exact ⟨hfirst (Or.inr hrepeats), Or.inr ⟨(KeySetting.isWellFormed_iff reader hkey).mpr
      ⟨entry, hentry⟩, Except.error.inj (hadd.symm.trans hcase)⟩⟩
  · exact nomatch hadd.symm.trans hcase

end KeyTable

/-- A configuration whose keys are all given in words makes a key table exactly if every key has a
key id, an odd modulus of 96 words whose inverse it is, and no exponent or one of the two, and no
key id is repeated. The table has the keys of the configuration in their order, those without an
exponent with exponent 3, and finds them and nothing else. Where there is no table, the message
names the first key at fault. -/
theorem configured_keys_make_table_or_first_fault (settings : Settings) (reader : KeyFileReader)
    (hpem : ∀ key ∈ settings.keys, key.pem = none) :
    ((∃ table, settings.keyTable reader = .ok table) ↔
      (∀ key ∈ settings.keys, key.IsWellFormed) ∧
        (settings.keys.map KeySetting.keyId).Nodup) ∧
    (∀ table, settings.keyTable reader = .ok table →
      table.entries.map KeyEntry.toSetting = settings.keys.map KeySetting.withExponent ∧
      (∀ entry ∈ table.entries, table.get? entry.keyId = some entry) ∧
      ∀ keyId, some keyId ∉ settings.keys.map KeySetting.keyId → table.get? keyId = none) ∧
    ∀ error, settings.keyTable reader = .error error →
      ∃ before key, IsFirstFault settings.keys before key ∧
        ((∃ reason, key.toEntry reader = .error reason ∧
            error.message = "Invalid key \x22" ++ key.name ++ "\x22: " ++ reason.message) ∨
          key.IsWellFormed ∧ error.message =
            "Key \x22" ++ key.name ++ "\x22: " ++ Fault.duplicateKeyId.message) := by
  refine ⟨KeyTable.exists_foldlM_addSetting_iff reader hpem, fun table htable => ?_,
    fun error herror => ?_⟩
  · obtain ⟨hnodup, -, hsettings⟩ := (KeyTable.foldlM_addSetting_empty_eq_ok_iff hpem).mp htable
    have hkeyIds : settings.keys.map KeySetting.keyId =
        (table.entries.map KeyEntry.keyId).map some := by
      rw [← KeySetting.map_keyId_withExponent, ← hsettings, map_keyId_toSetting]
    refine ⟨hsettings, fun entry hentry => ?_, fun keyId hkeyId => ?_⟩
    · exact KeyTable.get?_eq_some ((nodup_keyIds_iff hsettings).mpr hnodup) hentry
    · rw [KeyTable.get?_eq_none_iff_notMem]
      rw [hkeyIds] at hkeyId
      exact fun hmem => hkeyId (List.mem_map_of_mem hmem)
  · obtain ⟨before, key, hfirst, hcase⟩ := KeyTable.exists_firstFault hpem herror
    refine ⟨before, key, hfirst, ?_⟩
    rcases hcase with ⟨reason, hentry, rfl⟩ | ⟨hwellFormed, rfl⟩
    · exact Or.inl ⟨reason, hentry, rfl⟩
    · exact Or.inr ⟨hwellFormed, rfl⟩

/-- A key without an exponent makes an entry with exponent 3. A key after it that has its key id is
named, and not the key after both, which has an even modulus. -/
theorem repeated_key_is_named_before_even_key :
    let reader : KeyFileReader := fun _ => .error "No such file"
    let modulus : List Word := 3 :: List.replicate 95 0
    let first : KeySetting := ⟨"first", .haven, .rom, some 0x55555555, none, some modulus, none⟩
    let again : KeySetting := { first with name := "again", exponent := some 65537 }
    let even : KeySetting := { first with name := "even", modulus := some (List.replicate 96 0) }
    (∃ table, (⟨{}, [first]⟩ : Settings).keyTable reader = .ok table ∧
      table.entries.map KeyEntry.toSetting = [{ first with exponent := some 3 }]) ∧
    ∃ error before key, (⟨{}, [first, again, even]⟩ : Settings).keyTable reader = .error error ∧
      IsFirstFault [first, again, even] before key ∧
      error.message = "Key \x22again\x22: " ++ Fault.duplicateKeyId.message := by
  intro reader modulus first again even
  have hall : ∀ key ∈ [first, again, even], key.pem = none := by
    simp [first, again, even]
  have hfirst : ∀ key ∈ [first], key.pem = none := by simp [first]
  have hwellFormed : first.IsWellFormed :=
    ⟨0x55555555, modulus, rfl, rfl, rfl, by decide +kernel, Or.inl rfl, by decide⟩
  have hrefuses : (⟨{}, [first, again, even]⟩ : Settings).keyTable reader =
      .error (.refused "again" .duplicateKeyId) := by decide +kernel
  obtain ⟨hmakes, hentries, -⟩ :=
    configured_keys_make_table_or_first_fault ⟨{}, [first]⟩ reader hfirst
  obtain ⟨-, -, hfault⟩ :=
    configured_keys_make_table_or_first_fault ⟨{}, [first, again, even]⟩ reader hall
  obtain ⟨table, htable⟩ := hmakes.mpr ⟨by simpa using hwellFormed, List.nodup_singleton _⟩
  obtain ⟨before, key, hkey, -⟩ := hfault _ hrefuses
  exact ⟨⟨table, htable, (hentries table htable).1⟩, _, before, key, hrefuses, hkey, rfl⟩

end SignedFlash
