import SignedFlash.Proofs.Remembering

/-!
# Random numbers

Once it has a ladder, a session draws random numbers only to choose where folding starts. That does
not show in the buffer, and so in nothing that follows from it.
-/

namespace SignedFlash

/-- A signature leaves the same buffer wherever its two walks start. -/
theorem Session.recover_eq_foldDigest (session : Session) (key : PublicKey) (signature : Number)
    (final : Digest) (skipHash : Bool) (start start' : Nat) :
    (session.recover key signature final skipHash).1 =
      foldDigest (foldPlaces (key.liftedPower signature) start) final skipHash start' := by
  rw [Session.recover_fst, PublicKey.foldedBuffer]
  apply Words.ext_getD
  intro i hi
  -- each of the two walks comes to word `i` once, at whichever step
  by_cases hlow : i < 8 <;> simp [getD_foldDigest, getD_foldPlaces, hi, hlow]

/-- Sessions that agree give the same reports call by call, and agree at the end. -/
theorem Session.Agrees.performAll {s s' : Session} (h : s.Agrees s') (calls : List Call) :
    (s.performAll calls).1 = (s'.performAll calls).1 ∧
      (s.performAll calls).2.Agrees (s'.performAll calls).2 := by
  induction calls generalizing s s' with
  | nil => exact ⟨rfl, h⟩
  | cons call calls ih =>
    obtain ⟨hreports, hnext⟩ := h.perform call
    obtain ⟨hrest, hafter⟩ := ih hnext
    show (s.perform call).1 :: _ = (s'.perform call).1 :: _ ∧ _
    rw [hreports, hrest]
    exact ⟨rfl, hafter⟩

/-- Two sessions with one ladder that remember the same give the same reports on all calls, and have
the same ladder and remember the same afterwards, whatever random numbers each of them draws. In
particular a signature leaves the same buffer in both, namely that of walks from any start. -/
theorem runs_do_not_show_source (source source' : RandomSource) (ladder : Digest)
    (warmBoot : Option Digest) :
    let s : Session := ⟨source, ladder, warmBoot⟩
    let s' : Session := ⟨source', ladder, warmBoot⟩
    (∀ calls : List Call,
      (s.performAll calls).1 = (s'.performAll calls).1 ∧
        (s.performAll calls).2.ladder = (s'.performAll calls).2.ladder ∧
        (s.performAll calls).2.warmBoot = (s'.performAll calls).2.warmBoot) ∧
      ∀ (key : PublicKey) (signature : Number) (final : Digest) (skipHash : Bool)
        (start start' : Nat),
        (s.recover key signature final skipHash).1 =
            foldDigest (foldPlaces (key.liftedPower signature) start) final skipHash start' ∧
          (s'.recover key signature final skipHash).1 =
            (s.recover key signature final skipHash).1 := by
  intro s s'
  have hagrees : s.Agrees s' := ⟨rfl, rfl⟩
  refine ⟨fun calls => ?_, fun key signature final skipHash start start' => ?_⟩
  · have hrun := hagrees.performAll calls
    exact ⟨hrun.1, hrun.2.ladder, hrun.2.warmBoot⟩
  · have hbuffer := s.recover_eq_foldDigest key signature final skipHash start start'
    have hbuffer' := s'.recover_eq_foldDigest key signature final skipHash start start'
    exact ⟨hbuffer, hbuffer'.trans hbuffer.symm⟩

end SignedFlash
