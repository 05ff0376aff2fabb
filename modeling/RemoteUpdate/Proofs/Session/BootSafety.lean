import RemoteUpdate.Proofs.Session.WellFormedness

/-!
# Entries that are booted are not touched

On a device where any call may fail, each call of each operation spares the entries that the stored
pointer block refers to at that moment, however the operations before it ended.
-/

namespace RemoteUpdate.Session

variable {ρ : Type} {c : Session ρ} {changes : List FlashChange}

/-- The cells are guarded, and all calls so far spared what was booted. -/
def Safe (c : Session ρ) (f : ScheduledFlash) : Prop :=
  Guarded c f.device.cells ∧ ∀ call ∈ f.calls, Spares c call.1 call.2

/-- Careful changes are safe, whichever of them fail. -/
theorem Careful.safe_playAll {f : ScheduledFlash} (h : Careful c changes f.device.cells) (hf : Safe c f) :
    Safe c ((playAll changes).outcome f).2 := by
  obtain ⟨r, f', hplay, -, hcalls, hend⟩ := h.meets.playAll
  rw [hplay]
  refine ⟨?_, fun call hcall => ?_⟩
  · rcases hend with hall | ⟨change, -, hguard, -⟩
    · rw [hall]
      exact h.guarded_after
    · exact hguard
  · rcases hcalls call hcall with hold | ⟨-, hspares⟩
    · exact hf.2 call hold
    · exact hspares

theorem perform_safe (hc : Compact c) (op : SlotOperation) {s : SessionState ρ ScheduledFlash}
    (h : Safe c s.flash) : ∃ r s', Ends (c.perform op) s r s' ∧ Safe c s'.flash := by
  obtain ⟨changes, r, t, b, hperf, hplan⟩ := perform_follows c s op
  obtain ⟨r', s', hends, hflash, -⟩ := hperf.ends
  refine ⟨r', s', hends, ?_⟩
  rw [hflash]
  exact (hplan.careful hc h.1).1.safe_playAll h

theorem performAll_safe (hc : Compact c) (ops : List SlotOperation) {s : SessionState ρ ScheduledFlash}
    (h : Safe c s.flash) : ∃ s', Returns (c.performAll ops) s () s' ∧ Safe c s'.flash := by
  induction ops generalizing s with
  | nil => exact ⟨s, Returns.pure () s, h⟩
  | cons op ops ih =>
    obtain ⟨r, s₁, hends, hs₁⟩ := perform_safe hc op h
    obtain ⟨s', hrest, hs'⟩ := ih hs₁
    exact ⟨s', performAll_cons hends hrest, hs'⟩

/-- From a well-formed flash, every call of every run spares what is booted, whichever calls fail. -/
theorem performAll_spares_booted (c : Session ρ) (hc : Compact c) (ops : List SlotOperation)
    (s : SessionState ρ ScheduledFlash) (h : WellFormed c s.flash.device.cells)
    (hfresh : s.flash.calls = []) : ∃ s', Returns (c.performAll ops) s () s' ∧
      ∀ call ∈ s'.flash.calls, Spares c call.1 call.2 := by
  have hsafe : Safe c s.flash := ⟨(wellFormed_iff.mp h).1, by simp [hfresh]⟩
  obtain ⟨s', hrun, hs'⟩ := performAll_safe hc ops hsafe
  exact ⟨s', hrun, hs'.2⟩

/-- A device of the standard layout on which every third call fails. -/
def unreliableState : SessionState Unit ScheduledFlash where
  channel := { registers := () }
  flash := {
    device := plainFlash
    schedule := fun n => if n % 3 = 2 then some .failed else none }

/-- A slot is added, programmed twice and erased while every third call fails. -/
theorem performAll_spares_booted_unreliable :
    WellFormed plainSession unreliableState.flash.device.cells ∧ unreliableState.flash.calls = [] ∧
      ∃ s', Returns (plainSession.performAll [.create "APP" 0x120000 0x1000,
          .program .application 6 (Table.word32 Verifier.imageMagic), .enable 6,
          .program .raw 6 [1, 2, 3], .erase 6]) unreliableState () s' ∧
        ∀ call ∈ s'.flash.calls, Spares plainSession call.1 call.2 := by
  refine ⟨wellFormed_plainFlash, rfl, ?_⟩
  exact performAll_spares_booted plainSession compact_plainSession _ unreliableState
    wellFormed_plainFlash rfl

end RemoteUpdate.Session
