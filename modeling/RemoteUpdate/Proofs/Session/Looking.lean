import RemoteUpdate.Proofs.Session.Catalog

/-!
# Programs that look

A program `Looks` if it ends and leaves the device alone, whatever it finds there: loading the tables, looking
up a slot, and comparing a slot with an image.
-/

namespace RemoteUpdate.Session

variable {ρ φ α β : Type}

/-- The program ends, and leaves the device alone. -/
def Looks (x : SessionM ρ φ α) : Prop :=
  ∀ s, ∃ r s', Ends x s r s' ∧ s'.flash = s.flash

namespace Looks

variable {x : SessionM ρ φ α} {f : α → SessionM ρ φ β}

theorem of_same {r : SessionState ρ φ → Except UpdateError α} (h : ∀ s, Ends x s (r s) s) : Looks x :=
  fun s => ⟨r s, s, h s, rfl⟩

theorem pure (a : α) : Looks (Pure.pure a : SessionM ρ φ α) :=
  of_same (Ends.pure a)

theorem throw (e : UpdateError) : Looks (throw e : SessionM ρ φ α) :=
  of_same (Ends.throw e)

theorem bind (h : Looks x) (hf : ∀ a, Looks (f a)) : Looks (x >>= f) := by
  intro s
  obtain ⟨r, s₁, hx, hs₁⟩ := h s
  cases r with
  | error e => exact ⟨.error e, s₁, hx.bind_error, hs₁⟩
  | ok a =>
    obtain ⟨r, s', ha, hs'⟩ := hf a s₁
    exact ⟨r, s', hx.bind ha, hs'.trans hs₁⟩

protected theorem discard (h : Looks x) : Looks (discard x) := by
  intro s
  obtain ⟨r, s', hx, hs'⟩ := h s
  cases r with
  | error e => exact ⟨.error e, s', hx.discard_error, hs'⟩
  | ok a => exact ⟨.ok (), s', hx.discard_ok, hs'⟩

theorem get : Looks (MonadState.get : SessionM ρ φ _) :=
  fun s => ⟨.ok s, s, Ends.get s, rfl⟩

theorem log (e : SessionEvent) : Looks (Session.log e : SessionM ρ φ Unit) :=
  of_same (ends_log e)

theorem slotEntry (slot : ℕ) : Looks (Session.slotEntry slot : SessionM ρ φ _) :=
  of_same (ends_slotEntry slot)

theorem checkImage (c : Session ρ) (kind : ImageKind) (image : List UInt8) :
    Looks (c.checkImage kind image : SessionM ρ φ Unit) := by
  intro s
  rcases checkImage_cases c kind image s with h | ⟨failure, h⟩
  · exact ⟨.ok (), s, h, rfl⟩
  · exact ⟨.error failure, s, h, rfl⟩

theorem found (o : Option α) : Looks (Session.found o : SessionM ρ φ α) :=
  of_same (ends_found o)

variable [FlashDevice φ] [KeepsCells φ]

theorem loadTable (c : Session ρ) : Looks (c.loadTable : SessionM ρ φ _) := by
  intro s
  rcases c.loadTable_cases s with ⟨t, -, h⟩ | ⟨-, e, h⟩
  · exact ⟨.ok t, _, h, rfl⟩
  · exact ⟨.error e, s, h, rfl⟩

theorem load (c : Session ρ) : Looks (c.load : SessionM ρ φ _) := by
  intro s
  rcases c.load_cases s with ⟨t, b, -, -, h⟩ | ⟨e, t, h⟩
  · exact ⟨.ok (), _, h, rfl⟩
  · exact ⟨.error e, _, h, rfl⟩

theorem slotPartition (e : PartitionEntry) : Looks (Session.slotPartition e : SessionM ρ φ _) :=
  of_same (ends_slotPartition e)

theorem read (p : FlashPartition) (offset n : ℕ) :
    Looks (onFlash (p.read offset n) : SessionM ρ φ _) := by
  unfold FlashPartition.read FlashPartition.locate
  split
  · exact of_same (ends_read (p.base + offset) n)
  · exact of_same fun s => ends_onFlash (ExceptT.mk (Pure.pure (.error .size))) s

theorem compare (p : FlashPartition) (offset : ℕ) (expected : List UInt8) :
    Looks (Session.compare p offset expected : SessionM ρ φ Unit) := by
  induction offset, expected using Session.compare.induct with
  | case1 offset expected hnil =>
    rw [Session.compare, if_pos hnil]
    exact pure ()
  | case2 offset expected hne ih =>
    rw [Session.compare, if_neg hne]
    refine (read p offset _).bind fun got => ?_
    split
    · exact (log _).bind fun _ => throw _
    · exact ih

theorem verifySlot (c : Session ρ) (kind : ImageKind) (slot : ℕ) (image : List UInt8) :
    Looks (c.verifySlot kind slot image : SessionM ρ φ Unit) := by
  refine (loadTable c).discard.bind fun _ => (slotEntry slot).bind fun e => ?_
  have check : Looks (do
      c.checkImage kind image
      Session.compare (← Session.slotPartition e) 0 image : SessionM ρ φ Unit) :=
    (checkImage c kind image).bind fun _ => (slotPartition e).bind fun p => compare p 0 image
  dsimp only
  split
  · exact (throw _).bind fun _ => check
  · exact check

end Looks

end RemoteUpdate.Session
