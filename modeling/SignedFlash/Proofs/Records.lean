import SignedFlash.Header.Layout
import SignedFlash.Manifest.Layout
import SignedFlash.Proofs.Shapes
import Mathlib.Data.List.Nodup

/-!
# Records of fields

A header and a manifest are stored in one way: their fields stand one right behind the other, each
with its lowest byte first. So every byte belongs to one field, what is read is stored again as it
was, and setting a field changes the bytes of that field and no others. In a header the fields that
are not hashed come first, and stay apart from the others.
-/

namespace SignedFlash

/-! ## Fields in a row -/

section Rows

variable {Field : Type} (shape : Field → Shape) (offset : Field → Nat)

/-- Whether fields stand one right behind the other, from the byte `start` up to the byte `stop`. -/
def Consecutive : (start : Nat) → List Field → (stop : Nat) → Prop
  | start, [], stop => start = stop
  | start, f :: fields, stop =>
    offset f = start ∧ Consecutive (start + (shape f).size) fields stop

instance decidableConsecutive :
    (start : Nat) → (fields : List Field) → (stop : Nat) →
      Decidable (Consecutive shape offset start fields stop)
  | start, [], stop => inferInstanceAs (Decidable (start = stop))
  | start, f :: fields, stop =>
    have := decidableConsecutive (start + (shape f).size) fields stop
    inferInstanceAs (Decidable (offset f = start ∧ Consecutive shape offset _ fields stop))

variable {shape offset} {start stop : Nat} {fields : List Field}

namespace Consecutive

theorem sum_sizes (h : Consecutive shape offset start fields stop) :
    start + (fields.map fun f => (shape f).size).sum = stop := by
  induction fields generalizing start with
  | nil => exact h
  | cons f fields ih =>
    rw [List.map_cons, List.sum_cons, ← Nat.add_assoc]
    exact ih h.2

theorem bounds (h : Consecutive shape offset start fields stop) {f : Field} (hf : f ∈ fields) :
    start ≤ offset f ∧ offset f + (shape f).size ≤ stop := by
  induction fields generalizing start with
  | nil => exact nomatch hf
  | cons g fields ih =>
    obtain ⟨hg, hrest⟩ := h
    have hsum := hrest.sum_sizes
    rcases List.mem_cons.mp hf with rfl | hf
    · omega
    · have hbounds := ih hrest hf
      omega

theorem split {before after : List Field} {f : Field}
    (h : Consecutive shape offset start (before ++ f :: after) stop) :
    Consecutive shape offset start before (offset f) ∧
      Consecutive shape offset (offset f + (shape f).size) after stop := by
  induction before generalizing start with
  | nil =>
    obtain ⟨hf, hafter⟩ := h
    exact ⟨hf.symm, by rwa [hf]⟩
  | cons g before ih =>
    obtain ⟨hbefore, hafter⟩ := ih h.2
    exact ⟨⟨h.1, hbefore⟩, hafter⟩

-- Every byte of the row belongs to a field.
theorem exists_covering (h : Consecutive shape offset start fields stop) {i : Nat}
    (hstart : start ≤ i) (hstop : i < stop) :
    ∃ f ∈ fields, offset f ≤ i ∧ i < offset f + (shape f).size := by
  induction fields generalizing start with
  | nil => exact absurd (show start = stop from h) (by omega)
  | cons f fields ih =>
    obtain ⟨hf, hrest⟩ := h
    by_cases hi : i < start + (shape f).size
    · exact ⟨f, List.mem_cons_self, by omega, by omega⟩
    · obtain ⟨g, hg, hcovers⟩ := ih hrest (by omega)
      exact ⟨g, List.mem_cons_of_mem _ hg, hcovers⟩

-- The parts of a byte string under the fields of a row, put together again.
theorem flatMap_parts (h : Consecutive shape offset start fields stop) (bs : Bytes) :
    (fields.flatMap fun f => (bs.drop (offset f)).take (shape f).size) =
      (bs.drop start).take (stop - start) := by
  induction fields generalizing start with
  | nil =>
    obtain rfl : start = stop := h
    rw [Nat.sub_self, List.take_zero, List.flatMap_nil]
  | cons f fields ih =>
    obtain ⟨rfl, hrest⟩ := h
    have hsum := hrest.sum_sizes
    rw [List.flatMap_cons, ih hrest, ← List.drop_drop, ← List.take_add]
    congr 1
    omega

end Consecutive

end Rows

/-! ## Layouts -/

/-- How records of a kind are stored, field by field. -/
structure RecordLayout (Record Field : Type) where
  -- The fields in the order in which they are stored.
  fields : List Field
  shape : Field → Shape
  offset : Field → Nat
  get : Record → (f : Field) → (shape f).Value
  set : Record → (f : Field) → (shape f).Value → Record
  encode : Record → Bytes
  decode : Bytes → Record
  mem_fields : ∀ f, f ∈ fields
  nodup_fields : fields.Nodup
  consecutive : Consecutive shape offset 0 fields structureSize
  encode_eq : ∀ x, encode x = fields.flatMap fun f => (shape f).encode (get x f)
  get_decode : ∀ bs f, get (decode bs) f = (shape f).readAt bs (offset f)
  -- A record has nothing but its fields.
  ext_get : ∀ x y, (∀ f, get x f = get y f) → x = y
  get_set_self : ∀ x f v, get (set x f v) f = v
  get_set_of_ne : ∀ x f v g, g ≠ f → get (set x f v) g = get x g

/-- A byte string with the bytes from `offset` on replaced by those of `part`. -/
def Bytes.splice (bs : Bytes) (offset : Nat) (part : Bytes) : Bytes :=
  bs.take offset ++ part ++ bs.drop (offset + part.length)

theorem Bytes.take_splice {bs : Bytes} {offset n : Nat} (part : Bytes) (hroom : offset ≤ bs.length)
    (hn : n ≤ offset) : (bs.splice offset part).take n = bs.take n := by
  rw [splice, List.append_assoc, List.take_append_of_le_length (by rw [List.length_take]; omega),
    List.take_take, Nat.min_eq_left hn]

theorem Bytes.drop_splice {bs : Bytes} {offset n : Nat} {part : Bytes} (hroom : offset ≤ bs.length)
    (hn : offset + part.length ≤ n) : (bs.splice offset part).drop n = bs.drop n := by
  have hlength : (bs.take offset ++ part).length = offset + part.length := by
    rw [List.length_append, List.length_take, Nat.min_eq_left hroom]
  rw [splice, List.drop_append, List.drop_of_length_le (by omega), List.nil_append, List.drop_drop,
    hlength]
  congr 1
  omega

namespace RecordLayout

variable {Record Field : Type} (l : RecordLayout Record Field)

/-- What a layout promises of the bytes of records. -/
structure IsExact : Prop where
  encode_decode : ∀ bs : Bytes, bs.length = structureSize → l.encode (l.decode bs) = bs
  decode_encode : ∀ x, l.decode (l.encode x) = x
  length_encode : ∀ x, (l.encode x).length = structureSize
  -- byte `i` of a field, from the lowest up
  byte : ∀ x f i, i < (l.shape f).size →
    (l.encode x)[l.offset f + i]? = some (UInt8.ofNat ((l.shape f).number (l.get x f) / 256 ^ i))
  inside : ∀ f, l.offset f + (l.shape f).size ≤ structureSize
  -- without a gap and without an overlap
  tile : ∀ i < structureSize, ∃! f, l.offset f ≤ i ∧ i < l.offset f + (l.shape f).size
  get_set : ∀ x f v, l.get (l.set x f v) f = v
  encode_set : ∀ x f v,
    l.encode (l.set x f v) = (l.encode x).splice (l.offset f) ((l.shape f).encode v)

theorem inside (f : Field) : l.offset f + (l.shape f).size ≤ structureSize :=
  (l.consecutive.bounds (l.mem_fields f)).2

theorem length_encode (x : Record) : (l.encode x).length = structureSize := by
  rw [l.encode_eq, Shape.length_flatMap_encode, ← l.consecutive.sum_sizes, Nat.zero_add]

/-- The fields before a field and those behind it, which end and begin where it does. -/
theorem exists_split (f : Field) : ∃ before after, l.fields = before ++ f :: after ∧
    Consecutive l.shape l.offset 0 before (l.offset f) ∧
    Consecutive l.shape l.offset (l.offset f + (l.shape f).size) after structureSize ∧
    f ∉ before ∧ f ∉ after := by
  obtain ⟨before, after, hsplit⟩ := List.append_of_mem (l.mem_fields f)
  have hrow := l.consecutive
  have hnodup := l.nodup_fields
  rw [hsplit] at hrow hnodup
  have hnew : f ∉ before ++ after := (List.nodup_cons.mp (List.nodup_middle.mp hnodup)).1
  rw [List.mem_append, not_or] at hnew
  exact ⟨before, after, hsplit, hrow.split.1, hrow.split.2, hnew⟩

/-- A field is read back from a record, whatever stands behind it. -/
theorem readAt_encode_append (x : Record) (rest : Bytes) (f : Field) :
    (l.shape f).readAt (l.encode x ++ rest) (l.offset f) = l.get x f := by
  obtain ⟨before, after, hsplit, hbefore, -⟩ := l.exists_split f
  have hread := Shape.readAt_flatMap_encode l.shape (l.get x) before after f rest
  rwa [← hsplit, ← l.encode_eq, ← Nat.zero_add (List.sum _), hbefore.sum_sizes] at hread

theorem decode_encode_append (x : Record) (rest : Bytes) : l.decode (l.encode x ++ rest) = x := by
  apply l.ext_get
  intro f
  rw [l.get_decode, readAt_encode_append]

theorem decode_encode (x : Record) : l.decode (l.encode x) = x := by
  have h := l.decode_encode_append x []
  rwa [List.append_nil] at h

theorem encode_decode {bs : Bytes} (h : bs.length = structureSize) :
    l.encode (l.decode bs) = bs := by
  have hpart (f : Field) : (l.shape f).encode (l.get (l.decode bs) f) =
      (bs.drop (l.offset f)).take (l.shape f).size := by
    have hinside := l.inside f
    rw [l.get_decode]
    apply Shape.encode_decode
    rw [List.length_take, List.length_drop]
    omega
  rw [l.encode_eq, List.flatMap_congr fun f _ => hpart f, l.consecutive.flatMap_parts,
    List.drop_zero, Nat.sub_zero, ← h, List.take_length]

/-- A record around one of its fields. -/
theorem encode_around (f : Field) : ∃ before after : Record → Bytes,
    (∀ x, l.encode x = before x ++ (l.shape f).encode (l.get x f) ++ after x) ∧
    (∀ x, (before x).length = l.offset f) ∧
    ∀ x v, before (l.set x f v) = before x ∧ after (l.set x f v) = after x := by
  obtain ⟨before, after, hsplit, hbefore, -, hnew⟩ := l.exists_split f
  refine ⟨fun x => before.flatMap fun g => (l.shape g).encode (l.get x g),
    fun x => after.flatMap fun g => (l.shape g).encode (l.get x g), fun x => ?_, fun x => ?_,
    fun x v => ⟨?_, ?_⟩⟩
  · rw [l.encode_eq, hsplit, List.flatMap_append, List.flatMap_cons, List.append_assoc]
  · rw [Shape.length_flatMap_encode, ← hbefore.sum_sizes, Nat.zero_add]
  · exact List.flatMap_congr fun g hg => by
      rw [l.get_set_of_ne x f v g (by rintro rfl; exact hnew.1 hg)]
  · exact List.flatMap_congr fun g hg => by
      rw [l.get_set_of_ne x f v g (by rintro rfl; exact hnew.2 hg)]

theorem encode_set (x : Record) (f : Field) (v : (l.shape f).Value) :
    l.encode (l.set x f v) = (l.encode x).splice (l.offset f) ((l.shape f).encode v) := by
  obtain ⟨before, after, haround, hlength, hset⟩ := l.encode_around f
  have htake : (l.encode x).take (l.offset f) = before x := by
    rw [haround, List.append_assoc, ← hlength x, List.take_left]
  have hdrop : (l.encode x).drop (l.offset f + ((l.shape f).encode v).length) = after x := by
    have hsize : l.offset f + ((l.shape f).encode v).length =
        (before x ++ (l.shape f).encode (l.get x f)).length := by
      rw [List.length_append, hlength, Shape.length_encode, Shape.length_encode]
    rw [haround, hsize, List.drop_left]
  rw [Bytes.splice, htake, hdrop, haround, (hset x v).1, (hset x v).2, l.get_set_self]

theorem getElem?_encode (x : Record) (f : Field) {i : Nat} (hi : i < (l.shape f).size) :
    (l.encode x)[l.offset f + i]? =
      some (UInt8.ofNat ((l.shape f).number (l.get x f) / 256 ^ i)) := by
  obtain ⟨before, after, haround, hlength, -⟩ := l.encode_around f
  have hi' : i < ((l.shape f).encode (l.get x f)).length := by rwa [Shape.length_encode]
  rw [haround, List.append_assoc, ← hlength x, List.getElem?_append_right (Nat.le_add_right _ _),
    Nat.add_sub_cancel_left, List.getElem?_append_left hi', Shape.encode_eq_littleEndian,
    getElem?_littleEndian _ hi]

-- A byte of one field comes before the fields behind it, and after those before it.
theorem existsUnique_covering {i : Nat} (hi : i < structureSize) :
    ∃! f, l.offset f ≤ i ∧ i < l.offset f + (l.shape f).size := by
  obtain ⟨f, -, hcovers⟩ := l.consecutive.exists_covering (Nat.zero_le i) hi
  refine ⟨f, hcovers, fun g hg => ?_⟩
  obtain ⟨before, after, hsplit, hbefore, hafter, -⟩ := l.exists_split f
  have hmem := l.mem_fields g
  rw [hsplit, List.mem_append, List.mem_cons] at hmem
  rcases hmem with hmem | rfl | hmem
  · have hbounds := hbefore.bounds hmem
    omega
  · rfl
  · have hbounds := hafter.bounds hmem
    omega

theorem isExact : l.IsExact where
  encode_decode _ h := l.encode_decode h
  decode_encode := l.decode_encode
  length_encode := l.length_encode
  byte x f _ hi := l.getElem?_encode x f hi
  inside := l.inside
  tile _ hi := l.existsUnique_covering hi
  get_set := l.get_set_self
  encode_set := l.encode_set

end RecordLayout

/-! ## Headers and manifests -/

theorem Header.get_decode (bs : Bytes) (f : Field) : (decode bs).get f = read bs f := by
  cases f <;> rfl

-- Headers with the same fields are the same.
theorem Header.ext_get {h h' : Header} (hget : ∀ f, h.get f = h'.get f) : h = h' :=
  Header.ext (hget .magic) (hget .signature) (hget .imageCheck) (hget .tag) (hget .keyId)
    (hget .key) (hget .imageSize) (hget .roBase) (hget .roMax) (hget .rxBase) (hget .rxMax)
    (hget .fuseMap) (hget .infoMap) (hget .epoch) (hget .major) (hget .minor) (hget .timestamp)
    (hget .p4cl) (hget .applySec) (hget .config1) (hget .errResponse) (hget .expectResponse)
    (hget .trailerWords) (hget .pad) (hget .swapMark) (hget .storedProductFamily)
    (hget .storedBoardId) (hget .deviceId0) (hget .deviceId1) (hget .fusesCheck) (hget .infoCheck)

def Header.layout : RecordLayout Header Header.Field where
  fields := Header.Field.all
  shape := Header.Field.shape
  offset := Header.Field.offset
  get := Header.get
  set := Header.set
  encode := Header.encode
  decode := Header.decode
  mem_fields f := by cases f <;> decide
  nodup_fields := by decide
  consecutive := by decide
  encode_eq _ := rfl
  get_decode := Header.get_decode
  ext_get _ _ := Header.ext_get
  get_set_self _ f _ := by cases f <;> rfl
  get_set_of_ne x f v g hne := by
    cases f <;> cases g <;> first | rfl | exact absurd rfl hne

def Manifest.layout : RecordLayout Manifest Manifest.Field where
  fields := Manifest.Field.all
  shape := Manifest.Field.shape
  offset := Manifest.Field.offset
  get := Manifest.get
  set := Manifest.set
  encode := Manifest.encode
  decode := Manifest.decode
  mem_fields f := by cases f <;> decide
  nodup_fields := by decide
  consecutive := by decide
  encode_eq _ := rfl
  get_decode _ f := by cases f <;> rfl
  ext_get _ _ hget := Manifest.ext (hget .signature) (hget .selectorBits)
    (hget .constraintDeviceId) (hget .manufStateCreator) (hget .manufStateOwner)
    (hget .lifeCycleState) (hget .key) (hget .addressTranslation) (hget .identifier)
    (hget .manifestMajor) (hget .manifestMinor) (hget .signedRegionEnd) (hget .imageSize)
    (hget .major) (hget .minor) (hget .securityVersion) (hget .timestamp) (hget .bindingValue)
    (hget .maxKeyVersion) (hget .codeStart) (hget .codeEnd) (hget .entryPoint) (hget .extensions)
  get_set_self _ f _ := by cases f <;> rfl
  get_set_of_ne x f v g hne := by
    cases f <;> cases g <;> first | rfl | exact absurd rfl hne

namespace Header

theorem decode_encode_append (h : Header) (rest : Bytes) : decode (h.encode ++ rest) = h :=
  layout.decode_encode_append h rest

theorem decode_encode (h : Header) : decode h.encode = h := layout.decode_encode h

theorem length_encode (h : Header) : h.encode.length = structureSize := layout.length_encode h

/-- The fields of a header that its image hash does not cover. -/
def unhashed : List Field := [.magic, .signature, .imageCheck]

theorem Field.end_le_of_mem_unhashed {f : Field} (h : f ∈ unhashed) :
    f.offset + f.shape.size ≤ hashedFrom := by
  revert h
  cases f <;> decide

theorem Field.hashedFrom_le_of_notMem_unhashed {f : Field} (h : f ∉ unhashed) :
    hashedFrom ≤ f.offset := by
  revert h
  cases f <;> decide

theorem boardId_setBoardId (h : Header) (b : BoardId) : (h.setBoardId b).boardId = b :=
  b.xorPadding_xorPadding

theorem encode_set (h : Header) (f : Field) (v : f.shape.Value) :
    (h.set f v).encode = h.encode.splice f.offset (f.shape.encode v) := layout.encode_set h f v

theorem Field.offset_le_length (f : Field) (h : Header) : f.offset ≤ h.encode.length := by
  rw [h.length_encode]
  exact (Nat.le_add_right _ _).trans (layout.inside f)

theorem drop_encode_set (h : Header) {f : Field} (hf : f ∈ unhashed) (v : f.shape.Value) :
    (h.set f v).encode.drop hashedFrom = h.encode.drop hashedFrom := by
  have hend : f.offset + (f.shape.encode v).length ≤ hashedFrom := by
    rw [Shape.length_encode]
    exact Field.end_le_of_mem_unhashed hf
  rw [encode_set, Bytes.drop_splice (f.offset_le_length h) hend]

theorem take_encode_set (h : Header) {f : Field} (hf : f ∉ unhashed) (v : f.shape.Value) :
    (h.set f v).encode.take hashedFrom = h.encode.take hashedFrom := by
  rw [encode_set, Bytes.take_splice _ (f.offset_le_length h)
    (Field.hashedFrom_le_of_notMem_unhashed hf)]

end Header

/-- Headers and manifests are stored without loss, every field at its own bytes, which are all that
setting it changes. -/
theorem records_are_exact :
    Header.layout.IsExact ∧ Manifest.layout.IsExact ∧
    (∀ (h : Header) (b : BoardId), (h.setBoardId b).boardId = b ∧
      (h.setBoardId b).encode =
        h.encode.splice 996 (bytesOfWords [b.id ^^^ paddingWord, b.mask ^^^ paddingWord,
          b.flags ^^^ paddingWord])) ∧
    ∀ (h : Header) (f : Header.Field) (v : f.shape.Value),
      if f ∈ [.magic, .signature, .imageCheck] then
        (h.set f v).encode.drop 392 = h.encode.drop 392
      else
        (h.set f v).encode.take 392 = h.encode.take 392 := by
  refine ⟨Header.layout.isExact, Manifest.layout.isExact, fun h b => ?_, fun h f v => ?_⟩
  · exact ⟨h.boardId_setBoardId b, Header.layout.encode_set h .storedBoardId b.xorPadding⟩
  · split
    · rename_i hf
      exact h.drop_encode_set hf v
    · rename_i hf
      exact h.take_encode_set hf v

end SignedFlash
