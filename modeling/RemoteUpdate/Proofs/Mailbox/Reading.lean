import RemoteUpdate.Proofs.Sdm.Registers

/-!
# Reading responses

How the driver takes words out of the response ring, wherever the registers are and however many slots the
ring has. A register block `Relays` if it hands every access on to a device manager, whatever it keeps
track of besides. What a program `Yields` through such a block holds of the device manager on its own as
well as of one whose accesses are recorded.
-/

namespace RemoteUpdate

open EmulatedSdm

variable {ρ α β : Type} {R : ρ → EmulatedSdm → Prop} {s t u : EmulatedSdm} {a : α} {b : β}

/-! ### Standing in for a device manager -/

/-- On every block that stands in for `s` the program returns `a`, and the block stands in for `t` then. -/
def Yields (R : ρ → EmulatedSdm → Prop) (x : RegisterM ρ α) (s : EmulatedSdm) (a : α) (t : EmulatedSdm) : Prop :=
  ∀ r, R r s → ∃ r', Returns x r a r' ∧ R r' t

namespace Yields

variable {x : RegisterM ρ α} {f : α → RegisterM ρ β}

theorem pure (a : α) (s : EmulatedSdm) : Yields R (Pure.pure a) s a s :=
  fun r hr => ⟨r, .pure a r, hr⟩

theorem bind (h : Yields R x s a t) (h' : Yields R (f a) t b u) : Yields R (x >>= f) s b u := by
  intro r hr
  obtain ⟨r', hx, hr'⟩ := h r hr
  obtain ⟨r'', hf, hr''⟩ := h' r' hr'
  exact ⟨r'', hx.bind hf, hr''⟩

protected theorem discard (h : Yields R x s a t) : Yields R (discard x) s () t := by
  intro r hr
  obtain ⟨r', hx, hr'⟩ := h r hr
  exact ⟨r', hx.discard, hr'⟩

theorem log (m : Mailbox ρ) (e : MailboxEvent) (s : EmulatedSdm) : Yields R (m.log e) s () s :=
  fun r hr => ⟨r, .emit _ r, hr⟩

theorem returns {x : RegisterM EmulatedSdm α} (h : Yields Eq x s a t) : Returns x s a t := by
  obtain ⟨_, hx, rfl⟩ := h s rfl
  exact hx

end Yields

variable [RegisterBlock ρ]

/-- A block that stands in for a device manager answers as that one does, as long as no time passes. -/
structure Relays (R : ρ → EmulatedSdm → Prop) : Prop where
  read : ∀ (m : Mailbox ρ) offset s, Yields R (m.read offset) s (s.readRegister offset) s
  write : ∀ (m : Mailbox ρ) {offset value s t}, Returns (writeRegister offset value) s () t →
    Yields R (m.write offset value) s () t

theorem relays_self : Relays (Eq : EmulatedSdm → EmulatedSdm → Prop) where
  read m offset s := by
    rintro r rfl
    exact ⟨r, (Returns.get r).bind (.pure _ r), rfl⟩
  write m := by
    rintro offset value s t h r rfl
    exact ⟨t, h, rfl⟩

namespace Mailbox

variable {m : Mailbox ρ}

section Faces

omit [RegisterBlock ρ]

/-- The driver and the device manager agree on where the response ring and its registers are. -/
structure Faces (m : Mailbox ρ) (s : EmulatedSdm) : Prop where
  map : s.map = m.map
  unshared : Unshared s.map
  ringed : s.Ringed

theorem Faces.responseRing (h : Faces m s) : m.responseRing = s.responseRing := by
  rw [EmulatedSdm.responseRing, h.map]
  rfl

/-- Nothing that happens to the response ring moves a register. -/
theorem Faces.congr (h : Faces m s) (hcore : t.core = s.core) (ht : t.Ringed) : Faces m t where
  map := (congr_core EmulatedSdm.map hcore).trans h.map
  unshared := (congr_core (fun u => Unshared u.map) hcore).mpr h.unshared
  ringed := ht

end Faces

/-! ### Accesses -/

section Accesses

variable (hR : Relays R) (h : Faces m s)
include hR h

theorem yields_takeDoorbell :
    Yields R m.takeDoorbell s (decide s.Raised) (if s.Raised then { s with doorbell := 0 } else s) := by
  have hread := hR.read m s.map.doorbellFromSdm s
  rw [h.unshared.read_doorbell] at hread
  unfold takeDoorbell
  rw [← h.map]
  refine hread.bind ?_
  by_cases hraised : s.Raised
  · rw [if_neg hraised, if_pos hraised, decide_eq_true hraised]
    exact (hR.write m h.unshared.returns_clear).bind (.pure true _)
  · rw [if_pos (not_not.mp hraised), if_neg hraised, decide_eq_false hraised]
    exact .pure false s

theorem yields_cursor {offset : UInt32} {c : Nat} (hread : s.readRegister offset = .ofNat c)
    (hc : c < s.responseRing.capacity) : Yields R (m.cursor m.responseRing offset) s c s := by
  refine (hR.read m offset s).bind fun r hr => ⟨r, ?_, hr⟩
  rw [hread, h.responseRing, wrap_ofNat hc h.unshared.capacity_le, h.ringed.whenSlotted]
  exact .orAbort c r

theorem yields_responseCursor : Yields R m.responseCursor s s.rout s :=
  yields_cursor hR h (h.map ▸ h.unshared.read_responseOut) h.ringed.rout

theorem yields_responsePending : Yields R (m.responsePending s.rout) s (s.rin != s.rout) s :=
  (yields_cursor hR h (h.map ▸ h.unshared.read_responseIn) h.ringed.rin).bind (.pure _ s)

theorem yields_readWord :
    Yields R (m.readWord s.rout) s (s.responseCells.getD s.rout 0, s.popped.rout) s.popped := by
  have hread := hR.read m (s.map.responseSlot s.rout) s
  rw [h.unshared.read_slot h.ringed] at hread
  unfold readWord
  rw [← h.map, h.responseRing, h.ringed.popped.2.2.2]
  exact hread.bind <| (hR.write m (h.unshared.returns_pop h.ringed)).bind (.pure _ _)

theorem yields_waitWord (hpolls : 0 < m.timing.dataPolls) (hpending : s.rin ≠ s.rout) :
    Yields R (m.waitWord s.rout) s true s := by
  show Yields R (waitWord.go m s.rout m.timing.dataPolls) s true s
  obtain ⟨polls, hpolls⟩ : ∃ polls, m.timing.dataPolls = polls + 1 := ⟨m.timing.dataPolls - 1, by omega⟩
  rw [hpolls]
  unfold waitWord.go
  refine (yields_responsePending hR h).bind ?_
  rw [bne_iff_ne.mpr hpending]
  exact .pure true s

end Accesses

/-! ### Words and responses -/

/-- Of the words that waited to be taken from `s`, only `later` wait in `t`. Apart from that and from the
doorbell, they are the same. -/
structure Reduced (m : Mailbox ρ) (s : EmulatedSdm) (later : List UInt32) (t : EmulatedSdm) : Prop where
  faces : Faces m t
  published : t.Published
  core : t.core = s.core
  queue : t.queue = later

/-- The response ring has room for a word, since one of its slots stays unused, and the driver looks for each
word at least once. -/
structure Spacious (m : Mailbox ρ) : Prop where
  slots : 2 ≤ m.map.responseSlots
  polls : 1 ≤ m.timing.dataPolls

section Words

variable (hR : Relays R) (hm : Spacious m)
include hR hm

/-- A word that waits is in the ring, and taking it lets the next one in. -/
theorem yields_word {word : UInt32} {later : List UInt32} (h : Reduced m s (word :: later) t) :
    t.rin ≠ t.rout ∧ Yields R (m.readWord t.rout) t (word, t.popped.rout) t.popped ∧
      Reduced m s later t.popped := by
  have hslots : 2 ≤ t.responseRing.capacity := h.faces.responseRing ▸ hm.slots
  have hpending : t.rin ≠ t.rout :=
    h.faces.ringed.pending hslots h.published (by rw [h.queue]; exact List.cons_ne_nil _ _)
  obtain ⟨hringed, hpublished, hcore, -⟩ := h.faces.ringed.popped
  have hqueue := h.faces.ringed.queue_popped hpending
  rw [h.queue, List.cons.injEq] at hqueue
  obtain ⟨hword, hlater⟩ := hqueue
  refine ⟨hpending, ?_, h.faces.congr hcore hringed, hpublished, hcore.trans h.core, hlater.symm⟩
  rw [hword]
  exact yields_readWord hR h.faces

/-- However many words are asked for, none of those that wait is waited for in vain. -/
theorem yields_readData {later : List UInt32} (words : List UInt32)
    (h : Reduced m s (words ++ later) t) : ∃ u,
      Yields R (m.readData t.rout words.length) t (words, some u.rout) u ∧ Reduced m s later u := by
  induction words generalizing t with
  | nil => exact ⟨t, .pure _ t, h⟩
  | cons word words ih =>
    -- the rest may still be in the outbox: what carries the induction is that all of it waits
    obtain ⟨hpending, hread, hpopped⟩ := yields_word hR hm h
    obtain ⟨u, hrest, hu⟩ := ih hpopped
    refine ⟨u, ?_, hu⟩
    show Yields R (m.readData t.rout (words.length + 1)) t (word :: words, some u.rout) u
    unfold readData
    refine (yields_waitWord hR h.faces hm.polls hpending).bind ?_
    rw [if_pos rfl]
    exact hread.bind <| hrest.bind (.pure _ u)

end Words

end Mailbox

end RemoteUpdate
