import SignedFlash.Candidate
import SignedFlash.Proofs.Records

/-!
# Headers in flash

A header is found again wherever its bytes stand, since it is read back as it was stored, and the
bytes that are hashed know nothing of the fields before the tag.
-/

namespace SignedFlash

/-! ## Headers -/

namespace Header

-- What is hashed of a header: all fields from the tag on.
theorem drop_encode (h : Header) :
    h.encode.drop hashedFrom =
      (Field.all.drop 3).flatMap fun f => f.shape.encode (h.get f) := by
  have hsplit : Field.all = Field.all.take 3 ++ Field.all.drop 3 := rfl
  have hlen : ((Field.all.take 3).flatMap fun f => f.shape.encode (h.get f)).length =
      hashedFrom := by
    rw [Shape.length_flatMap_encode]
    rfl
  unfold encode
  rw [hsplit, List.flatMap_append, ← hlen, List.drop_left]
  rfl

theorem drop_encode_congr {h h' : Header} (hget : ∀ f ∈ Field.all.drop 3, h.get f = h'.get f) :
    h.encode.drop hashedFrom = h'.encode.drop hashedFrom := by
  rw [drop_encode, drop_encode]
  exact List.flatMap_congr fun f hf => by rw [hget f hf]

end Header

/-! ## Headers in flash -/

theorem Header.check_eq_ok_iff {h : Header} :
    h.check = .ok () ↔
      h.family?.isSome = true ∧ minImageSize ≤ h.imageSize ∧
        h.imageSize &&& cryptolibBits = 0 ∧ h.rxBase = h.roBase + 1024 := by
  unfold Header.check
  rw [← UInt32.not_lt]
  cases h.family? with
  | none => exact ⟨nofun, fun h => nomatch h.1⟩
  | some family =>
    rw [if_neg (by simp)]
    split
    · rename_i hsize
      exact ⟨nofun, fun h => absurd hsize h.2.1⟩
    split
    · rename_i hbits
      exact ⟨nofun, fun h => absurd h.2.2.1 hbits⟩
    split
    · rename_i hbase
      exact ⟨nofun, fun h => absurd h.2.2.2 hbase⟩
    · rename_i hsize hbits hbase
      exact ⟨fun _ => ⟨rfl, hsize, not_not.mp hbits, not_not.mp hbase⟩, fun _ => rfl⟩

namespace Candidate

theorem ofHeaderWindow_eq_ok_iff {window : Bytes} {c : Candidate} :
    ofHeaderWindow window = .ok c ↔
      (Header.decode window).check = .ok () ∧ c = .header (Header.decode window) := by
  unfold ofHeaderWindow
  dsimp only
  cases (Header.decode window).check with
  | error fault => exact ⟨fun h => (nomatch h), fun h => (nomatch h.1)⟩
  | ok _ => exact ⟨fun h => ⟨rfl, (Except.ok.inj h).symm⟩, fun h => congrArg Except.ok h.2.symm⟩

theorem ofManifestWindow_eq_ok_iff {window : Bytes} {c : Candidate} :
    ofManifestWindow window = .ok c ↔
      (Manifest.decode window).check = .ok () ∧ c = .manifest (Manifest.decode window) := by
  unfold ofManifestWindow
  dsimp only
  cases (Manifest.decode window).check with
  | error fault => exact ⟨fun h => (nomatch h), fun h => (nomatch h.1)⟩
  | ok _ => exact ⟨fun h => ⟨rfl, (Except.ok.inj h).symm⟩, fun h => congrArg Except.ok h.2.symm⟩

-- What is found in a window is found as a header or as a manifest.
theorem ofWindow_eq_ok {window : Bytes} {c : Candidate} (h : ofWindow window = .ok c) :
    ofHeaderWindow window = .ok c ∨ ofManifestWindow window = .ok c := by
  unfold ofWindow at h
  split at h
  · split at h
    · rename_i hheader
      left
      rwa [hheader]
    · right
      cases hmanifest : ofManifestWindow window with
      | error _ =>
        rw [hmanifest] at h
        exact nomatch h
      | ok c' =>
        rw [hmanifest] at h
        exact h
  · exact Or.inl h
  · exact Or.inr h
  · exact nomatch h

theorem ofWindow_eq_error {window : Bytes} {fault : Fault} (h : ofWindow window = .error fault) :
    fault = .noImageStructure ∨ ofHeaderWindow window = .error fault ∨
      ofManifestWindow window = .error fault := by
  unfold ofWindow at h
  split at h
  · split at h
    · exact nomatch h
    · -- of a window that claims to be both, the fault of the header is reported
      rename_i hheader
      cases hmanifest : ofManifestWindow window with
      | error _ =>
        rw [hmanifest] at h
        obtain rfl := Except.error.inj h
        exact Or.inr (Or.inl hheader)
      | ok _ =>
        rw [hmanifest] at h
        exact nomatch h
  · exact Or.inr (Or.inl h)
  · exact Or.inr (Or.inr h)
  · exact Or.inl (Except.error.inj h).symm

-- A header that obeys the rules is found where its bytes stand, even if it could be read as a
-- manifest too.
theorem ofFront_encode_append {h : Header} (hcheck : h.check = .ok ()) (rest : Bytes) :
    ofFront (h.encode ++ rest) = .ok (.header h) := by
  have hfront : (h.encode ++ rest).first? structureSize = some h.encode := by
    rw [Bytes.first?_eq_some_iff, List.length_append, h.length_encode]
    exact ⟨Nat.le_add_right _ _, by rw [← h.length_encode, List.take_left]⟩
  have hfamily : h.family?.isSome = true := (Header.check_eq_ok_iff.mp hcheck).1
  have hclaims : claimsHeader h.encode = true := by
    unfold claimsHeader
    have hmagic : Header.read h.encode .magic = h.magic := by
      rw [← Header.get_decode, h.decode_encode]
      rfl
    rw [hmagic]
    exact hfamily
  have hheader : ofHeaderWindow h.encode = .ok (.header h) := by
    rw [ofHeaderWindow_eq_ok_iff, Header.decode_encode]
    exact ⟨hcheck, rfl⟩
  unfold ofFront ofWindow
  rw [hfront]
  simp only [hclaims, hheader]
  cases claimsManifest h.encode <;> rfl

/-- Whether a structure obeys the rules of its kind. -/
def IsValid : Candidate → Prop
  | .header h => h.check = .ok ()
  | .manifest m => m.check = .ok ()

-- A structure is found only where there is room for it, and if it obeys the rules.
theorem ofFront_eq_ok {bytes : Bytes} {c : Candidate} (h : ofFront bytes = .ok c) :
    structureSize ≤ bytes.length ∧ c.IsValid := by
  unfold ofFront at h
  split at h
  · exact nomatch h
  rename_i window hwindow
  refine ⟨(Bytes.first?_eq_some_iff.mp hwindow).1, ?_⟩
  rcases ofWindow_eq_ok h with hheader | hmanifest
  · obtain ⟨hcheck, rfl⟩ := ofHeaderWindow_eq_ok_iff.mp hheader
    exact hcheck
  · obtain ⟨hcheck, rfl⟩ := ofManifestWindow_eq_ok_iff.mp hmanifest
    exact hcheck

theorem parse_eq_ok {buf : Bytes} {offset : Nat} {c : Candidate} (h : parse buf offset = .ok c) :
    offset + structureSize ≤ buf.length ∧ c.IsValid := by
  obtain ⟨hlength, hvalid⟩ := ofFront_eq_ok h
  rw [List.length_drop] at hlength
  have hpos : 0 < structureSize := by decide
  exact ⟨by omega, hvalid⟩

end Candidate

end SignedFlash
