import SignedFlash.Command.Verify
import SignedFlash.Proofs.ConfiguredKeys
import SignedFlash.Proofs.DumpedKeys
import SignedFlash.Proofs.Generated
import SignedFlash.Proofs.Toml.RoundTrip

/-!
# Loading a dump as a configuration

A dump is a configuration that loads: its keys read back as they were written, and all of them make
entries of one key table.
-/

namespace SignedFlash

open Toml

/-! ## Values -/

theorem readWord?_wordValue (w : Word) : Settings.readWord? (wordValue w) = some w := by
  have hw := w.toNat_lt
  have hbounds : (0 : Int) ≤ w.toNat ∧ (w.toNat : Int) < 0x100000000 := by omega
  simp [Settings.readWord?, wordValue, hbounds]

theorem readWords?_wordsValue (ws : List Word) : Settings.readWords? (wordsValue ws) = some ws := by
  induction ws with
  | nil => rfl
  | cons w ws ih =>
    simp only [Settings.readWords?, wordsValue] at ih
    simp [Settings.readWords?, wordsValue, readWord?_wordValue, ih]

theorem readName?_family (family : Family) :
    Settings.readName? Family.ofConfigName? (.string family.configName) = some family := by
  cases family <;> rfl

theorem readName?_role (role : KeyRole) :
    Settings.readName? KeyRole.ofName? (.string role.name) = some role := by
  cases role <;> rfl

/-- A key of a configuration reads back from its table, whichever settings it gives. -/
theorem readKey?_toValue (key : KeySetting) : Settings.readKey? key.toValue = some key := by
  obtain ⟨name, family, role, keyId, exponent, modulus, pem⟩ := key
  have hword := readWord?_wordValue
  have hwords := readWords?_wordsValue
  cases keyId <;> cases exponent <;> cases modulus <;> cases pem <;>
    simp [Settings.readKey?, KeySetting.toValue, Settings.onlyKeys, Settings.field?, Entries.get?,
      List.lookup_cons, hword, hwords, readName?_family, readName?_role, Settings.readString?]

/-! ## Tables -/

section

variable {depth : Nat}

theorem readsAs_text (s : String) : ReadsAs depth (renderValue (.string s)) (.string s) :=
  readsAs_string depth s

theorem readsAs_wordValue (w : Word) : ReadsAs depth (renderValue (wordValue w)) (wordValue w) := by
  have hw := w.toNat_lt
  exact readsAs_integer depth (by omega)

theorem readsAs_wordsValue (depth : Nat) (hdepth : 0 < depth) (ws : List Word) :
    ReadsAs depth (renderValue (wordsValue ws)) (wordsValue ws) := by
  obtain ⟨depth, rfl⟩ := Nat.exists_eq_succ_of_ne_zero (Nat.ne_of_gt hdepth)
  have hitems : List.Forall₂ (ReadsAs depth) (renderItems (ws.map wordValue))
      (ws.map wordValue) := by
    induction ws with
    | nil => exact .nil
    | cons w ws ih => exact .cons (readsAs_wordValue w) ih
  exact readsAs_array hitems

end

theorem readsBack_key (key : KeySetting) :
    ∃ entries, key.toValue = .table .header entries ∧ ReadsBack entries := by
  obtain ⟨name, family, role, keyId, exponent, modulus, pem⟩ := key
  have hwords := readsAs_wordsValue (nestingLimit - 1) (by decide)
  refine ⟨_, rfl, ?_, ?_⟩
  · cases keyId <;> cases exponent <;> cases modulus <;> cases pem <;> simp
  · cases keyId <;> cases exponent <;> cases modulus <;> cases pem <;>
      simp [readsAs_text, readsAs_wordValue, hwords]

theorem readsBack_details {d : ImageDetails} (hoffset : d.offset < 2 ^ 63) :
    ∃ entries, d.toValue = .table .header entries ∧ ReadsBack entries := by
  have hinteger : ReadsAs (nestingLimit - 1) (renderValue (.integer d.offset))
      (.integer d.offset) :=
    readsAs_integer _ (by omega)
  have hwords := readsAs_wordsValue (nestingLimit - 1) (by decide)
  exact ⟨_, rfl, by simp, by simp [hinteger, readsAs_text, readsAs_wordValue, hwords]⟩

/-! ## Documents -/

theorem exists_tables {items : List Value}
    (h : ∀ item ∈ items, ∃ entries, item = .table .header entries ∧ ReadsBack entries) :
    ∃ tables : List Entries, items = tables.map (.table .header) ∧
      ∀ table ∈ tables, ReadsBack table := by
  induction items with
  | nil => exact ⟨[], rfl, by simp⟩
  | cons item items ih =>
    obtain ⟨table, rfl, htable⟩ := h item List.mem_cons_self
    obtain ⟨tables, rfl, htables⟩ := ih fun item hitem => h item (List.mem_cons_of_mem _ hitem)
    exact ⟨table :: tables, rfl, List.forall_mem_cons.mpr ⟨htable, htables⟩⟩

-- An array of tables, or an empty list if there are none.
theorem readsBackAtTop_array {items : List Value}
    (h : ∀ item ∈ items, ∃ entries, item = .table .header entries ∧ ReadsBack entries) :
    ReadsBackAtTop (.array true items) := by
  obtain ⟨tables, rfl, htables⟩ := exists_tables h
  by_cases hempty : tables = []
  · subst hempty
    exact .plain rfl (readsAs_array .nil)
  · exact .tables hempty htables

theorem parse_text {dump : Dump} (hoffsets : ∀ d ∈ dump.images, d.offset < 2 ^ 63) :
    parse dump.text = some (reread dump.toEntries) := by
  have hkeys : ReadsBackAtTop (.array true (dump.keys.map KeySetting.toValue)) := by
    apply readsBackAtTop_array
    intro item hitem
    obtain ⟨key, -, rfl⟩ := List.mem_map.mp hitem
    exact readsBack_key key
  have himages : ReadsBackAtTop (.array true (dump.images.map ImageDetails.toValue)) := by
    apply readsBackAtTop_array
    intro item hitem
    obtain ⟨d, hd, rfl⟩ := List.mem_map.mp hitem
    exact readsBack_details (hoffsets d hd)
  apply parse_render
  · simp [Dump.toEntries]
  · simp [Dump.toEntries, hkeys, himages]

theorem mapM_readKey?_toValue (keys : List KeySetting) :
    (keys.map KeySetting.toValue).mapM Settings.readKey? = some keys := by
  induction keys with
  | nil => rfl
  | cons key keys ih => simp [readKey?_toValue, ih]

theorem get?_reread_toEntries (dump : Dump) :
    Entries.get? (reread dump.toEntries) "verify" = none ∧
      ∃ ofTables, Entries.get? (reread dump.toEntries) "keys" =
        some (.array ofTables (dump.keys.map KeySetting.toValue)) := by
  by_cases hkeys : dump.keys = [] <;> by_cases himages : dump.images = [] <;>
    simp [reread, Dump.toEntries, hasHeader, asRead, Entries.get?, List.lookup_cons, hkeys, himages]

/-- The configuration in the text of a dump gives its keys and no options. -/
theorem parse?_text {dump : Dump} (hoffsets : ∀ d ∈ dump.images, d.offset < 2 ^ 63) :
    Settings.parse? dump.text = some ⟨{}, dump.keys⟩ := by
  obtain ⟨hverify, ofTables, hkeys⟩ := get?_reread_toEntries dump
  have hread : Settings.readKeys? (.array ofTables (dump.keys.map KeySetting.toValue)) =
      some dump.keys := mapM_readKey?_toValue dump.keys
  rw [Settings.parse?, parse_text hoffsets]
  simp [Settings.ofEntries?, Settings.field?, hverify, hkeys, hread]

/-! ## The key table -/

/-- Keys that each make an entry with their own words and have different key ids make a table of
these entries. -/
theorem exists_table_of_entries {reader : KeyFileReader} {keys : List KeySetting}
    (hentries : ∀ key ∈ keys, ∃ entry, key.toEntry reader = .ok entry ∧ entry.toSetting = key)
    (hkeyIds : (keys.map KeySetting.keyId).Nodup) :
    ∃ made, keys.foldlM (KeyTable.addSetting reader) KeyTable.empty = .ok made ∧
      made.entries.map KeyEntry.toSetting = keys := by
  have hpem : ∀ key ∈ keys, key.pem = none := by
    intro key hkey
    obtain ⟨entry, -, rfl⟩ := hentries key hkey
    rfl
  have hwellFormed : ∀ key ∈ keys, key.IsWellFormed := by
    intro key hkey
    obtain ⟨entry, hentry, -⟩ := hentries key hkey
    exact (KeySetting.isWellFormed_iff reader (hpem key hkey)).mpr ⟨entry, hentry⟩
  have hexponents : keys.map KeySetting.withExponent = keys := by
    rw [← List.map_id keys, List.map_map]
    apply List.map_congr_left
    intro key hkey
    obtain ⟨entry, -, rfl⟩ := hentries key hkey
    rfl
  obtain ⟨made, hmade⟩ :=
    (KeyTable.exists_foldlM_addSetting_iff reader hpem).mpr ⟨hwellFormed, hkeyIds⟩
  obtain ⟨-, -, hsettings⟩ := (KeyTable.foldlM_addSetting_empty_eq_ok_iff hpem).mp hmade
  exact ⟨made, hmade, hsettings.trans hexponents⟩

theorem toEntry_of {h : Header} (husable : h.HasUsableKey) (family : Family) (exponent : Exponent)
    (reader : KeyFileReader) :
    ∃ entry, (KeySetting.of h family exponent).toEntry reader = .ok entry ∧
      entry.toSetting = KeySetting.of h family exponent := by
  let role := (family.sectionAt h.roBase).keyRole
  let name := family.name ++ " " ++ role.name ++ " " ++ Text.hex 8 h.keyId.toNat
  refine ⟨⟨name, family, role, h.keyWith exponent⟩, ?_, rfl⟩
  show (KeyEntry.new name family role h.keyId h.key.toList exponent.value).mapError _ = _
  rw [husable.entry]
  rfl

/-- The keys of a dump make a key table, with an entry for each key and none besides. -/
theorem exists_keyTable_dumpImage (source : RandomSource) {buf : Bytes}
    (hlength : buf.length ≤ maxLength) (reader : KeyFileReader) :
    ∃ table, (⟨{}, (dumpImage source buf).1.keys⟩ : Settings).keyTable reader = .ok table ∧
      table.entries.map KeyEntry.toSetting = (dumpImage source buf).1.keys := by
  apply exists_table_of_entries
  · intro key hkey
    obtain ⟨offset, h, family, hfirst, hfamily, rfl⟩ :=
      (mem_keys_dumpImage_iff source hlength).mp hkey
    exact toEntry_of hfirst.usable _ _ reader
  · exact keys_dumpImage_nodup source hlength

theorem keyIds_nodup_of_dumpImage {source : RandomSource} {buf : Bytes}
    (hlength : buf.length ≤ maxLength) {table : KeyTable}
    (hsettings : table.entries.map KeyEntry.toSetting = (dumpImage source buf).1.keys) :
    (table.entries.map KeyEntry.keyId).Nodup := by
  have hnodup := keys_dumpImage_nodup source hlength
  rw [← hsettings, map_keyId_toSetting] at hnodup
  exact hnodup.of_map some

/-! ## Dumping and loading -/

theorem output_dump {request : DumpRequest} {files : Files} (source : RandomSource) {buf : Bytes}
    (himage : files request.image = .ok buf) :
    (request.run files source).output = (dumpImage source buf).1.text := by
  rw [DumpRequest.run, withImage, himage]

theorem loadSettings_dump {request : DumpRequest} {config : String} {files : Files}
    {source : RandomSource} {buf : Bytes} (hlength : buf.length ≤ maxLength)
    (himage : files request.image = .ok buf)
    (hconfig : files config = .ok (textBytes (request.run files source).output)) :
    loadSettings files config = .ok ⟨{}, (dumpImage source buf).1.keys⟩ := by
  have hoffsets : ∀ d ∈ (dumpImage source buf).1.images, d.offset < 2 ^ 63 := by
    intro d hd
    obtain ⟨offset, h, family, hheader, -, rfl⟩ := ((images_dumpImage source hlength).2 d).mp hd
    have hlt : offset < buf.length := hheader.lt
    unfold maxLength at hlength
    show offset < 2 ^ 63
    omega
  rw [output_dump source himage] at hconfig
  rw [loadSettings, text_of_textBytes hconfig]
  simp only [parse?_text hoffsets]

/-- What the command `dump` prints loads as a configuration, and makes a key table with exactly the
keys of the dump: those of the first headers with usable keys, one for each key id. It names no key
files, so that it is all the same how these are read. Each header of the flash image is listed once,
in the order of the offsets. -/
theorem dump_loads_back (request : DumpRequest) (config : String) (files : Files)
    (reader : KeyFileReader) (source : RandomSource) (buf : Bytes)
    (hlength : buf.length ≤ maxLength)
    (himage : files request.image = .ok buf)
    (hconfig : files config = .ok (textBytes (request.run files source).output)) :
    (∃ settings table, loadSettings files config = .ok settings ∧
      settings.keyTable reader = .ok table ∧
      table.entries.map KeyEntry.toSetting = (dumpImage source buf).1.keys ∧
      (table.entries.map KeyEntry.keyId).Nodup) ∧
    (∀ keyId, (∃ key ∈ (dumpImage source buf).1.keys, key.keyId = some keyId) ↔
      ∃ offset h, IsHeaderAt buf offset h ∧ h.keyId = keyId ∧ h.HasUsableKey) ∧
    (∀ key ∈ (dumpImage source buf).1.keys, ∃ offset h, IsFirstWithKey buf offset h ∧
      key.keyId = some h.keyId ∧ key.modulus = some h.key.toList) ∧
    ((dumpImage source buf).1.images.map ImageDetails.offset).Pairwise (· < ·) ∧
    ∀ d, d ∈ (dumpImage source buf).1.images ↔
      ∃ offset h family, IsHeaderAt buf offset h ∧ h.family? = some family ∧
        d = ImageDetails.of offset h family := by
  obtain ⟨hsorted, himages⟩ := images_dumpImage source hlength
  obtain ⟨table, htable, hsettings⟩ := exists_keyTable_dumpImage source hlength reader
  have hkeyIds := keyIds_nodup_of_dumpImage hlength hsettings
  have hfirst : ∀ key ∈ (dumpImage source buf).1.keys, ∃ offset h, IsFirstWithKey buf offset h ∧
      key.keyId = some h.keyId ∧ key.modulus = some h.key.toList := by
    intro key hkey
    obtain ⟨offset, h, family, hfirst, -, rfl⟩ := (mem_keys_dumpImage_iff source hlength).mp hkey
    exact ⟨offset, h, hfirst, rfl, rfl⟩
  exact ⟨⟨_, table, loadSettings_dump hlength himage hconfig, htable, hsettings, hkeyIds⟩,
    exists_key_dumpImage_iff source hlength, hfirst, hsorted, himages⟩

/-- A flash image with the sample image in it, and its dump. -/
def sampleFiles : Files := fun path =>
  if path = "flash.bin" then .ok sampleImage.bytes
  else .ok (textBytes (dumpImage ⟨fun _ => 0⟩ sampleImage.bytes).1.text)

-- The header of a generated image stands where the image stands.
theorem isHeaderAt_generated {spec : ImageSpec} (hfits : spec.Fits) (crypto : Crypto)
    (signature : Number) (before : Bytes) (haligned : alignment ∣ before.length) (rest : Bytes) :
    IsHeaderAt (before ++ (spec.signedBytes crypto signature ++ rest)) before.length
      (spec.signedHeader crypto signature) := by
  refine ⟨haligned, ?_⟩
  rw [Candidate.parse, List.drop_left, ImageSpec.signedBytes, List.append_assoc]
  exact Candidate.ofFront_encode_append (spec.check_signedHeader crypto signature hfits) _

/-- The dump of the sample image makes a table with the key of the image, with no key file at hand
and none needed. -/
theorem sample_dump_loads_back :
    let reader : KeyFileReader := fun _ => .error "no key file"
    sampleImage.bytes.length ≤ maxLength ∧ ∃ settings table,
      loadSettings sampleFiles "keys.toml" = .ok settings ∧
      settings.keyTable reader = .ok table ∧
      ∃ entry ∈ table.entries, entry.keyId = sampleSpec.key.keyId := by
  intro reader
  have hlength : sampleImage.bytes.length ≤ maxLength := by
    rw [length_sampleImage]
    decide
  have himage : sampleFiles "flash.bin" = .ok sampleImage.bytes := if_pos rfl
  have hconfig : sampleFiles "keys.toml" =
      .ok (textBytes ((⟨"flash.bin"⟩ : DumpRequest).run sampleFiles ⟨fun _ => 0⟩).output) := by
    rw [output_dump _ himage]
    exact if_neg (by decide)
  obtain ⟨⟨settings, table, hload, htable, hsettings, -⟩, hkeys, -⟩ :=
    dump_loads_back ⟨"flash.bin"⟩ "keys.toml" sampleFiles reader ⟨fun _ => 0⟩ sampleImage.bytes
      hlength himage hconfig
  have hheader : IsHeaderAt sampleImage.bytes 0 sampleImage.header := by
    have h := isHeaderAt_generated sampleSpec_fits sampleCrypto sampleSignature []
      (Nat.dvd_zero _) []
    rw [List.nil_append, List.append_nil] at h
    exact h
  have husable : sampleImage.header.HasUsableKey := ⟨by decide, by decide⟩
  obtain ⟨key, hkey, hkeyId⟩ := (hkeys _).mpr ⟨0, _, hheader, rfl, husable⟩
  rw [← hsettings] at hkey
  obtain ⟨entry, hentry, rfl⟩ := List.mem_map.mp hkey
  exact ⟨hlength, settings, table, hload, htable, entry, hentry, Option.some.inj hkeyId⟩

end SignedFlash
