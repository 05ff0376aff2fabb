import RemoteUpdate.Proofs.Flash.Tearing
import RemoteUpdate.Proofs.Session.Looking
import RemoteUpdate.Proofs.Session.Stages

/-!
# What survives a call that tears

On a device where a call that fails leaves any bytes in the range it addresses, an operation ends in its first
call that fails. Until then every window holds what is allowed there, but for the one that is being replaced,
so that the call that fails tears no more than one window. `Survives` says what a program does there, with
one condition for a program that succeeds and one for the cells that a program leaves that fails.
-/

namespace RemoteUpdate

namespace Session

variable {ρ α β : Type} {c : Session ρ} {s s' : SessionState ρ TornFlash}

/-! ### Programs that survive -/

/-- The program ends: if it succeeds, as `Q` says, and if it fails, with cells as `C` says. -/
def Survives (x : SessionM ρ TornFlash α) (s : SessionState ρ TornFlash)
    (Q : α → SessionState ρ TornFlash → Prop) (C : ByteArray → Prop) : Prop :=
  ∃ r s', Ends x s r s' ∧ match r with
    | .ok a => Q a s'
    | .error _ => C s'.flash.device.cells

namespace Survives

variable {x : SessionM ρ TornFlash α} {f : α → SessionM ρ TornFlash β} {a : α} {e : UpdateError}
  {Q Q' : α → SessionState ρ TornFlash → Prop} {R : β → SessionState ρ TornFlash → Prop}
  {C : ByteArray → Prop}

theorem pure (h : Q a s) : Survives (Pure.pure a) s Q C :=
  ⟨.ok a, s, Ends.pure a s, h⟩

theorem throw (h : C s.flash.device.cells) : Survives (throw e) s Q C :=
  ⟨.error e, s, Ends.throw e s, h⟩

theorem bind (h : Survives x s Q C) (hf : ∀ a s', Q a s' → Survives (f a) s' R C) :
    Survives (x >>= f) s R C := by
  obtain ⟨r, s', hx, hq⟩ := h
  cases r with
  | error e => exact ⟨.error e, s', hx.bind_error, hq⟩
  | ok a =>
    obtain ⟨r, s'', ha, hr⟩ := hf a s' hq
    exact ⟨r, s'', hx.bind ha, hr⟩

theorem after (h : Ends x s (.ok a) s') (hf : Survives (f a) s' R C) : Survives (x >>= f) s R C := by
  obtain ⟨r, s'', ha, hr⟩ := hf
  exact ⟨r, s'', h.bind ha, hr⟩

theorem require {r : Except UpdateError α} (hc : C s.flash.device.cells)
    (hq : ∀ a, r = .ok a → Q a s) : Survives (Session.require r) s Q C := by
  refine ⟨r, s, ends_require r s, ?_⟩
  cases r with
  | error e => exact hc
  | ok a => exact hq a rfl

theorem need {r : Except UpdateError α} (hc : C s.flash.device.cells)
    (hf : ∀ a, r = .ok a → Survives (f a) s R C) : Survives (Session.require r >>= f) s R C := by
  refine (require (Q := fun a s' => r = .ok a ∧ s' = s) hc fun a ha => ⟨ha, rfl⟩).bind ?_
  rintro a _ ⟨ha, rfl⟩
  exact hf a ha

theorem mono (h : Survives x s Q C) (hq : ∀ a s', Q a s' → Q' a s') : Survives x s Q' C := by
  obtain ⟨r, s', hx, hr⟩ := h
  refine ⟨r, s', hx, ?_⟩
  cases r with
  | error e => exact hr
  | ok a => exact hq a s' hr

theorem logFailure {event : SessionEvent} (h : Survives x s Q C) :
    Survives (Session.logFailure event x) s Q C := by
  obtain ⟨r, s', hx, hq⟩ := h
  exact ⟨r, s', ends_logFailure hx, hq⟩

protected theorem discard (h : Survives x s Q C) :
    Survives (discard x) s (fun _ s' => ∃ a, Q a s') C := by
  obtain ⟨r, s', hx, hq⟩ := h
  cases r with
  | error e => exact ⟨.error e, s', hx.discard_error, hq⟩
  | ok a => exact ⟨.ok (), s', hx.discard_ok, a, hq⟩

theorem read (a n : ℕ) (hc : ∀ cells, TornIn a n s.flash.device.cells cells → C cells) :
    Survives (onFlash (FlashDevice.read a n)) s (fun bytes s' =>
      bytes = Cells.slice s.flash.device.cells a n ∧
        ∃ flash, s' = { s with flash } ∧ flash.device.cells = s.flash.device.cells) C := by
  have h := ends_onFlash (FlashDevice.read a n) s
  obtain ⟨r, f', houtcome, hr⟩ := TornFlash.read_cases s.flash a n
  rw [houtcome] at h
  cases r with
  | error fault => exact ⟨_, _, h, hc _ hr⟩
  | ok bytes => exact ⟨_, _, h, hr.1, f', rfl, hr.2⟩

theorem change (change : FlashChange)
    (hc : ∀ cells, TornIn change.address change.length s.flash.device.cells cells → C cells) :
    Survives (onFlash change.play) s (fun _ s' =>
      ∃ flash, s' = { s with flash } ∧ change.Fits s.flash.device.cells ∧
        flash.device.cells = change.on s.flash.device.cells) C := by
  have h := ends_onFlash change.play s
  obtain ⟨r, f', houtcome, hr⟩ := TornFlash.play_cases s.flash change
  rw [houtcome] at h
  cases r with
  | error fault => exact ⟨_, _, h, hc _ hr⟩
  | ok u => exact ⟨_, _, h, f', rfl, hr.1, hr.2⟩

end Survives

/-! ### Windows that survive -/

variable {site : Copy → UInt64} {size : ℕ} {A : Copy → List UInt8 → Prop} {cells cells' : ByteArray}
  {t t' : PartitionTable} {b b' : PointerBlock} {e : PartitionEntry} {j : Copy}

/-- Every window but one holds what is allowed there. -/
structure WholeBut (size : ℕ) (site : Copy → UInt64) (A : Copy → List UInt8 → Prop) (j : Copy)
    (cells : ByteArray) : Prop where
  large : size = cells.size
  others : ∀ k ≠ j, A k (held site cells k)

/-- Every window holds what is allowed there. -/
structure Whole (size : ℕ) (site : Copy → UInt64) (A : Copy → List UInt8 → Prop) (cells : ByteArray) :
    Prop where
  large : size = cells.size
  each : ∀ k, A k (held site cells k)

/-- At most one window does not hold what is allowed there. -/
def Frayed (site : Copy → UInt64) (A : Copy → List UInt8 → Prop) (cells : ByteArray) : Prop :=
  ∃ j, ∀ k ≠ j, A k (held site cells k)

theorem Whole.but (h : Whole size site A cells) (j : Copy) : WholeBut size site A j cells :=
  ⟨h.large, fun k _ => h.each k⟩

theorem WholeBut.frayed (h : WholeBut size site A j cells) : Frayed site A cells :=
  ⟨j, h.others⟩

theorem Whole.frayed (h : Whole size site A cells) : Frayed site A cells :=
  (h.but .table).frayed

section Windows

variable (hsited : Sited c size t site)
include hsited

/-- Tearing the window that need not hold what is allowed does no harm. -/
theorem WholeBut.torn {a n : ℕ} (h : WholeBut size site A j cells) (ht : TornIn a n cells cells')
    (hlow : (site j).toNat ≤ a) (hhigh : a + n ≤ (site j).toNat + tableSize) :
    WholeBut size site A j cells' := by
  refine ⟨h.large.trans ht.size.symm, fun k hk => ?_⟩
  have hd := hsited.separate hk.symm
  have : held site cells' k = held site cells k := by
    refine ht.outside _ _ ?_
    unfold Cells.Apart at hd ⊢
    omega
  rw [this]
  exact h.others k hk

/-- Neither does tearing a slot. -/
theorem Whole.torn {a n : ℕ} (h : Whole size site A cells) (ht : TornIn a n cells cells')
    (he : e ∈ t.listed) (hu : e.isProtected = false) (hlow : e.offset.toNat ≤ a)
    (hhigh : a + n ≤ e.top) : Whole size site A cells' := by
  refine ⟨h.large.trans ht.size.symm, fun k => ?_⟩
  have hd := hsited.clear k he hu
  have : held site cells' k = held site cells k := by
    refine ht.outside _ _ ?_
    unfold PartitionEntry.top at hhigh
    unfold Cells.Apart at hd ⊢
    omega
  rw [this]
  exact h.each k

/-- A change of a slot leaves the windows as they are. -/
theorem Whole.on_slot {change : FlashChange} (h : Whole size site A cells) (he : e ∈ t.listed)
    (hu : e.isProtected = false) (hw : Within change e) : Whole size site A (change.on cells) := by
  obtain ⟨hfit, hheld⟩ := held_on_slot hsited h.large he hu hw
  refine ⟨h.large.trans (FlashChange.size_on hfit).symm, fun k => ?_⟩
  rw [hheld]
  exact h.each k

end Windows

/-- Every window holds what is allowed there, and these are the scratch copies. -/
structure Carries (size : ℕ) (site : Copy → UInt64) (A : Copy → List UInt8 → Prop) (t : PartitionTable)
    (b : PointerBlock) (s : SessionState ρ TornFlash) : Prop where
  whole : Whole size site A s.flash.device.cells
  table : s.table = t
  block : s.block = b

/-! ### Parts of operations -/

section Parts

variable (hsited : Sited c size t site)
include hsited

/-- A window is replaced by something that is allowed there. -/
theorem survives_replace (h : Carries size site A t' b s) (j : Copy) {bytes : List UInt8}
    (hl : bytes.length = tableSize) (ha : A j bytes) :
    Survives (replace (site j) tableSize bytes) s (fun _ => Carries size site A t' b)
      (Frayed site A) := by
  -- from the erase until the write is done one copy may hold anything, the three others are whole
  have hbut := h.whole.but j
  refine (Survives.change (.erase (site j).toNat tableSize) fun cells ht =>
    (hbut.torn hsited ht le_rfl le_rfl).frayed).bind ?_
  rintro _ _ ⟨flash, rfl, -, hcells⟩
  obtain ⟨hfit, hheld⟩ := held_on (.erase (site j).toNat tableSize) hsited hbut.large rfl rfl
  have hbut' : WholeBut size site A j flash.device.cells := by
    rw [hcells]
    refine ⟨hbut.large.trans (FlashChange.size_on hfit).symm, fun k hk => ?_⟩
    rw [hheld, Function.update_of_ne hk]
    exact h.whole.each k
  refine (Survives.change (.write (site j).toNat bytes) fun cells ht =>
    (hbut'.torn hsited ht le_rfl (Nat.add_le_add_left hl.le _)).frayed).mono ?_
  rintro _ _ ⟨flash', rfl, -, hcells'⟩
  obtain ⟨hfit', hheld'⟩ := held_on (.write (site j).toNat bytes) hsited hbut'.large rfl hl
  refine ⟨?_, h.table, h.block⟩
  show Whole size site A flash'.device.cells
  rw [hcells']
  refine ⟨hbut'.large.trans (FlashChange.size_on hfit').symm, fun k => ?_⟩
  rw [hheld']
  by_cases hk : k = j
  · subst hk
    rw [Function.update_self]
    exact ha
  · rw [Function.update_of_ne hk]
    exact hbut'.others k hk

theorem survives_saveTable (hc : Compact c) (h : Carries size site A t' b s)
    (ha : A .table t'.encode) (ha' : A .tableBackup t'.encode) :
    Survives c.saveTable s (fun _ => Carries size site A t' b) (Frayed site A) := by
  refine .after (Ends.get s) ?_
  rw [h.table, hc.table, ← hsited.table, ← hsited.tableBackup]
  refine (survives_replace hsited h .tableBackup t'.length_encode ha').bind fun _ s₁ h₁ => ?_
  refine (survives_replace hsited h₁ .table t'.length_encode ha).bind fun _ s₂ h₂ => ?_
  exact ⟨_, _, ends_log _ _, h₂⟩

theorem survives_saveBlock (hc : Compact c) (h : Carries size site A t b s)
    (ha : A .block b.encode) (ha' : A .blockBackup b.encode) :
    Survives c.saveBlock s (fun _ => Carries size site A t b) (Frayed site A) := by
  have hplace := ends_blockOffset c s
  rw [h.table, hsited.block] at hplace
  refine .after hplace (.after (Ends.get s) ?_)
  rw [h.block, hc.block]
  refine (survives_replace hsited h .block b.length_encode ha).bind fun _ s₁ h₁ => ?_
  have hbackup := ends_partitionOffset? c.layout.backupName s₁
  rw [h₁.table, hsited.blockBackup] at hbackup
  refine .after hbackup ?_
  refine (survives_replace hsited h₁ .blockBackup b.length_encode ha').bind fun _ s₂ h₂ => ?_
  exact ⟨_, _, ends_log _ _, h₂⟩

theorem survives_disablePointer (hc : Compact c) (h : Carries size site A t b s) (slot : ℕ)
    (ha : ∀ b' ∈ b.takenOut e.offset, A .block b'.encode ∧ A .blockBackup b'.encode) :
    Survives (c.disablePointer slot e) s (fun _ => Carries size site A t (b.disable e.offset).2)
      (Frayed site A) := by
  refine .after (Ends.get s) ?_
  rw [h.block]
  unfold PointerBlock.takenOut at ha
  dsimp only
  split
  next hd =>
    rw [if_pos hd] at ha
    obtain ⟨hfirst, hsecond⟩ := ha _ List.mem_cons_self
    have h' : Carries size site A t (b.disable e.offset).2 { s with block := (b.disable e.offset).2 } :=
      ⟨h.whole, h.table, rfl⟩
    refine .after (Ends.modify _ s) ?_
    refine (survives_saveBlock hsited hc h' hfirst hsecond).bind fun _ s₁ h₁ => ?_
    exact ⟨_, _, ends_log _ _, h₁⟩
  next hd =>
    rw [PointerBlock.disable_of_not_changed (by simpa using hd)]
    exact .pure h

theorem survives_enablePointer (hc : Compact c) (h : Carries size site A t b s) (slot : ℕ)
    (ha : ∀ b' ∈ b.putOnTop e.offset, A .block b'.encode ∧ A .blockBackup b'.encode) :
    Survives (c.enablePointer slot e) s (fun _ => Carries size site A t (b.enable e.offset).2)
      (Frayed site A) := by
  refine .after (Ends.get s) ?_
  rw [h.block]
  unfold PointerBlock.putOnTop at ha
  rcases hd : b.enable e.offset with ⟨placed, b'⟩
  rw [hd] at ha
  dsimp only at ha ⊢
  have h' : Carries size site A t b' { s with block := b' } := ⟨h.whole, h.table, rfl⟩
  refine .after (Ends.modify _ s) ?_
  rcases placed with failure | (_ | _)
  · cases failure with
    | full => exact .after (ends_log _ _) (.throw h.whole.frayed)
    | noSlot => exact .throw h.whole.frayed
  · exact .pure h'
  · obtain ⟨hfirst, hsecond⟩ := ha _ List.mem_cons_self
    refine (survives_saveBlock hsited hc h' hfirst hsecond).bind fun _ s₁ h₁ => ?_
    exact ⟨_, _, ends_log _ _, h₁⟩

/-! ### Slots -/

section Contents

variable (he : e ∈ t.listed) (hu : e.isProtected = false)
include he hu

theorem survives_slotRead {p : FlashPartition} (hbase : p.base = e.offset.toNat)
    (hlen : p.length = e.length.toNat) (h : Carries size site A t' b s) (offset n : ℕ) :
    Survives (onFlash (p.read offset n)) s (fun _ => Carries size site A t' b) (Frayed site A) := by
  unfold FlashPartition.read FlashPartition.locate
  split
  next hr =>
    refine (Survives.read (p.base + offset) n fun cells ht =>
      (h.whole.torn hsited ht he hu (by omega) ?_).frayed).mono ?_
    · unfold PartitionEntry.top
      omega
    · rintro _ _ ⟨-, flash, rfl, hcells⟩
      exact ⟨by rw [hcells]; exact h.whole, h.table, h.block⟩
  next => exact ⟨_, _, ends_onFlash (ExceptT.mk (Pure.pure (.error .size))) s, h.whole.frayed⟩

/-- A slot is compared, whatever it holds. -/
theorem survives_compare {p : FlashPartition} (hbase : p.base = e.offset.toNat)
    (hlen : p.length = e.length.toNat) (h : Carries size site A t' b s) (offset : ℕ)
    (expected : List UInt8) :
    Survives (compare p offset expected) s (fun _ => Carries size site A t' b) (Frayed site A) := by
  induction offset, expected using compare.induct generalizing s with
  | case1 offset expected hnil =>
    rw [compare, if_pos hnil]
    exact .pure h
  | case2 offset expected hne ih =>
    rw [compare, if_neg hne]
    refine (survives_slotRead hsited he hu hbase hlen h offset _).bind fun got s₁ h₁ => ?_
    split
    · exact .after (ends_log _ _) (.throw h₁.whole.frayed)
    · exact ih h₁

/-- A change of a slot touches no window. -/
theorem survives_slotChange {change : FlashChange} (hw : Within change e)
    (h : Carries size site A t' b s) :
    Survives (onFlash change.play) s (fun _ => Carries size site A t' b) (Frayed site A) := by
  refine (Survives.change change fun cells ht =>
    (h.whole.torn hsited ht he hu hw.1 hw.2).frayed).mono ?_
  rintro _ _ ⟨flash, rfl, -, hcells⟩
  refine ⟨?_, h.table, h.block⟩
  show Whole size site A flash.device.cells
  rw [hcells]
  exact h.whole.on_slot hsited he hu hw

end Contents

end Parts

theorem survives_slotPartition (h : Carries size site A t b s) :
    Survives (slotPartition e) s (fun p s' => p.base = e.offset.toNat ∧ p.length = e.length.toNat ∧
      Carries size site A t b s') (Frayed site A) := by
  refine .after (Ends.get s) (.require h.whole.frayed fun p hp => ?_)
  cases hl : FlashPartition.ofEntry (FlashDevice.capacity s.flash) e with
  | error fault =>
    rw [hl] at hp
    cases hp
  | ok q =>
    rw [hl] at hp
    obtain rfl := Except.ok.inj hp
    obtain ⟨hbase, hlen, -⟩ := ofEntry_eq_ok hl
    exact ⟨hbase, hlen, h⟩

/-! ### Opening a slot -/

section Opening

variable (hsited : Sited c size t site) (hw : Whole size site A s.flash.device.cells)
  (ht : tableIn? (held site s.flash.device.cells .table) = some t)
  (hb : blockIn? (held site s.flash.device.cells .block) = some b)
include hsited hw

include ht in
theorem survives_loadTable : Survives c.loadTable s (fun t' s' => t' = t ∧ ∃ flash,
    s' = { s with flash, table := t } ∧ flash.device.cells = s.flash.device.cells)
    (Frayed site A) := by
  obtain ⟨hdec, hv⟩ := tableIn?_eq_some ht
  have hread : Survives (do
      let bytes ← onFlash (FlashDevice.read (site .table).toNat tableSize)
      verifiedTable (← require (PartitionTable.decode bytes))) s
      (fun t' s' => t' = t ∧ ∃ flash, s' = { s with flash } ∧
        flash.device.cells = s.flash.device.cells) (Frayed site A) := by
    refine (Survives.read _ _ fun cells htorn =>
      ((hw.but .table).torn hsited htorn le_rfl le_rfl).frayed).bind ?_
    rintro _ s₁ ⟨rfl, flash, rfl, hcells⟩
    have hver := ends_verifiedTable t { s with flash }
    rw [hv] at hver
    refine .after ?_ ⟨_, _, hver, rfl, flash, rfl, hcells⟩
    exact hdec ▸ ends_require _ _
  unfold loadTable
  rw [← hsited.table]
  refine hread.logFailure.bind ?_
  rintro _ _ ⟨rfl, flash, rfl, hcells⟩
  exact .after (Ends.modify _ _) (.pure ⟨rfl, flash, rfl, hcells⟩)

include hb in
theorem survives_loadBlock (htable : s.table = t) :
    Survives c.loadBlock s (fun _ => Carries size site A t b) (Frayed site A) := by
  obtain ⟨hdec, hv⟩ := blockIn?_eq_some hb
  have hplace := ends_blockOffset c s
  rw [htable, hsited.block] at hplace
  refine .after hplace ((Survives.read _ _ fun cells htorn =>
    ((hw.but .block).torn hsited htorn le_rfl le_rfl).frayed).bind ?_)
  rintro _ s₁ ⟨rfl, flash, rfl, hcells⟩
  have hver := ends_logFailure (e := .blockCorrupt (site .block)) (ends_verifiedBlock b { s with flash })
  rw [hv] at hver
  have hdecoded : Ends (require (PointerBlock.decode (held site s.flash.device.cells .block)))
      { s with flash } (.ok b) { s with flash } := hdec ▸ ends_require _ _
  refine .after hdecoded (.after hver ?_)
  refine .after (Ends.modify _ _) (.pure ⟨?_, htable, rfl⟩)
  show Whole size site A flash.device.cells
  rw [hcells]
  exact hw

include ht in
theorem survives_tabled {work : PartitionTable → SessionM ρ TornFlash α}
    {Q : α → SessionState ρ TornFlash → Prop}
    (hwork : ∀ s', Carries size site A t s.block s' → Survives (work t) s' Q (Frayed site A)) :
    Survives (c.loadTable >>= work) s Q (Frayed site A) := by
  refine (survives_loadTable hsited hw ht).bind ?_
  rintro _ _ ⟨rfl, flash, rfl, hcells⟩
  exact hwork _ ⟨by rw [hcells]; exact hw, rfl, rfl⟩

include ht hb in
theorem survives_opened {slot : ℕ} {work : PartitionEntry → SessionM ρ TornFlash Unit}
    {Q : Unit → SessionState ρ TornFlash → Prop}
    (hwork : ∀ e s', t.listed[slot]? = some e → e.isProtected = false → Carries size site A t b s' →
      Survives (work e) s' Q (Frayed site A)) :
    Survives (do c.load; work (← mutableEntry slot)) s Q (Frayed site A) := by
  have hload : Survives c.load s (fun _ => Carries size site A t b) (Frayed site A) := by
    refine (survives_loadTable hsited hw ht).discard.bind ?_
    rintro _ _ ⟨_, -, flash, rfl, hcells⟩
    have hw' : Whole size site A flash.device.cells := by rwa [hcells]
    have hb' : blockIn? (held site flash.device.cells .block) = some b := by rwa [hcells]
    exact (survives_loadBlock (s := { s with flash, table := t }) hsited hw' hb' rfl).discard.mono
      fun _ _ ⟨_, h⟩ => h
  refine hload.bind fun _ s₁ h₁ => ?_
  rcases mutableEntry_cases slot s₁ with ⟨e, he, hu, hopen⟩ | ⟨failure, hopen⟩
  · rw [h₁.table] at he
    exact .after hopen (hwork e s₁ he hu h₁)
  · exact ⟨_, _, hopen.bind_error, h₁.whole.frayed⟩

end Opening

/-! ### Operations -/

/-- The entry of a slot that may be changed. -/
def writable? (t : PartitionTable) (slot : ℕ) : Option PartitionEntry :=
  (t.listed[slot]?).filter (!·.isProtected)

/-- The partition table that an operation saves on a device with so many bytes, by the stored one. -/
def newTable? (size : ℕ) (t : PartitionTable) : SlotOperation → Option PartitionTable
  | .create name offset length => do
    let e ← (PartitionEntry.make name offset length 0).toOption
    if t.findName? name = none ∧ length ≠ 0 ∧ e.top ≤ size ∧
        (t.findOverlap offset length).toOption = some none then
      (t.push e).toOption.map (·.2)
    else none
  | .delete slot => do
    let _ ← writable? t slot
    (t.remove slot).toOption.map (·.2)
  | .rename slot name => do
    let _ ← writable? t slot
    if ∀ other ∈ t.findName? name, other = slot then
      (t.modifyEntry slot (·.rename name)).toOption
    else none
  | _ => none

/-- The pointer blocks that an operation saves, one after the other, by the stored tables. -/
def savedBlocks (c : Session ρ) (t : PartitionTable) (b : PointerBlock) :
    SlotOperation → List PointerBlock
  | .delete slot | .disable slot | .erase slot =>
    (writable? t slot).toList.flatMap fun e => b.takenOut e.offset
  | .enable slot => (writable? t slot).toList.flatMap fun e => b.putOnTop e.offset
  | .program kind slot image => (writable? t slot).toList.flatMap fun e =>
    if image ≠ [] ∧ image.length ≤ e.length.toNat ∧ c.passes kind image then
      b.takenOut e.offset ++ if kind = .raw then [] else (b.disable e.offset).2.putOnTop e.offset
    else []
  | .createEmptyBlock => [.empty maxPointers]
  | .create .. | .rename .. => []

theorem writable?_eq_some {slot : ℕ} (he : t.listed[slot]? = some e) (hu : e.isProtected = false) :
    writable? t slot = some e := by
  unfold writable?
  rw [he, Option.filter_some, hu, Bool.not_false, if_pos rfl]

/-- What the window of a copy may hold because of an operation: what it held, or what the operation saves
there. -/
def Kept (c : Session ρ) (size : ℕ) (op : SlotOperation) (t : PartitionTable) (b : PointerBlock)
    (w : Copy → List UInt8) (k : Copy)
    (bytes : List UInt8) : Prop :=
  bytes = w k ∨ match k with
    | .table | .tableBackup => ∃ t', newTable? size t op = some t' ∧ bytes = t'.encode
    | .block | .blockBackup => ∃ b' ∈ savedBlocks c t b op, bytes = b'.encode

section Operations

variable {op : SlotOperation} {w : Copy → List UInt8} {slot : ℕ}

theorem Kept.table (h : newTable? size t op = some t') :
    Kept c size op t b w .table t'.encode ∧ Kept c size op t b w .tableBackup t'.encode :=
  ⟨.inr ⟨t', h, rfl⟩, .inr ⟨t', h, rfl⟩⟩

theorem Kept.block {b' : PointerBlock} (h : b' ∈ savedBlocks c t b op) :
    Kept c size op t b w .block b'.encode ∧ Kept c size op t b w .blockBackup b'.encode :=
  ⟨.inr ⟨b', h, rfl⟩, .inr ⟨b', h, rfl⟩⟩

theorem mem_opened {l : PartitionEntry → List PointerBlock} (he : t.listed[slot]? = some e)
    (hu : e.isProtected = false) (h : b' ∈ l e) : b' ∈ (writable? t slot).toList.flatMap l := by
  rw [writable?_eq_some he hu, Option.toList_some, List.flatMap_singleton]
  exact h

/-- A program that the windows survive. -/
def Harmless (size : ℕ) (site : Copy → UInt64) (A : Copy → List UInt8 → Prop)
    (x : SessionM ρ TornFlash α) (s : SessionState ρ TornFlash) : Prop :=
  Survives x s (fun _ s' => Whole size site A s'.flash.device.cells) (Frayed site A)

theorem Survives.still {A : Copy → List UInt8 → Prop} {x : SessionM ρ TornFlash α}
    {r : Except UpdateError α} (hw : Whole size site A s.flash.device.cells) (h : Ends x s r s) :
    Harmless size site A x s := by
  refine ⟨r, s, h, ?_⟩
  cases r with
  | ok a => exact hw
  | error e => exact hw.frayed

variable (hc : Compact c) (hsited : Sited c size t site)
include hc hsited

/-- The partition table is replaced and saved. -/
theorem harmless_newTable {rest : SessionM ρ TornFlash α}
    (h : Carries size site (Kept c size op t b w) t b' s) (hnew : newTable? size t op = some t')
    (hrest : ∀ s, Carries size site (Kept c size op t b w) t' b' s →
      Harmless size site (Kept c size op t b w) rest s) :
    Harmless size site (Kept c size op t b w) (do
      modify fun s => { s with table := t' }
      c.saveTable
      rest) s := by
  have h' : Carries size site (Kept c size op t b w) t' b' { s with table := t' } := ⟨h.whole, rfl, h.block⟩
  obtain ⟨hfirst, hsecond⟩ := Kept.table (b := b) (w := w) hnew
  refine .after (Ends.modify _ s) ?_
  exact (survives_saveTable hsited hc h' hfirst hsecond).bind fun _ => hrest

variable (hw : Whole size site (Kept c size op t b w) s.flash.device.cells)
  (ht : tableIn? (held site s.flash.device.cells .table) = some t)
include hw ht

theorem harmless_createSlot {name : String} {offset : UInt64} {length : UInt32}
    (hop : op = .create name offset length) :
    Harmless size site (Kept c size op t b w) (c.createSlot name offset length) s := by
  subst hop
  -- all the checks come before the first change, so a refusal leaves the flash as it was
  refine survives_tabled hsited hw ht fun s₁ h₁ => .need h₁.whole.frayed fun e made => ?_
  dsimp only
  split
  · exact .still h₁.whole (Ends.throw _ _).bind_error
  next fresh =>
    split
    · exact .still h₁.whole (Ends.throw _ _).bind_error
    next sized =>
      refine .after (Ends.get _) (.need h₁.whole.frayed fun top htop => ?_)
      split
      · exact .still h₁.whole (Ends.throw _ _).bind_error
      next fits =>
        have hfit : e.top ≤ size := by
          rw [PartitionTable.rangeEnd_eq_ok htop] at fits
          exact h₁.whole.large ▸ Nat.not_lt.mp fits
        refine .need h₁.whole.frayed fun meets apart => ?_
        cases meets with
        | some i => exact .after (ends_log _ _) (.still h₁.whole (Ends.throw _ _).bind_error)
        | none =>
          refine .need h₁.whole.frayed fun pushed hpush => ?_
          obtain ⟨slot, t'⟩ := pushed
          refine harmless_newTable hc hsited h₁ ?_ fun s₂ h₂ => ?_
          · have hfresh : t.findName? name = none := by simpa using fresh
            simp [newTable?, made, hfresh, sized, hfit, apart, hpush, Except.toOption]
          · exact .still h₂.whole ((ends_log _ _).bind (Ends.pure _ _))

theorem harmless_renameSlot {name : String} (hop : op = .rename slot name) :
    Harmless size site (Kept c size op t b w) (c.renameSlot slot name) s := by
  subst hop
  refine survives_tabled hsited hw ht fun s₁ h₁ => ?_
  rcases mutableEntry_cases slot s₁ with ⟨e, he, hu, hopen⟩ | ⟨failure, hopen⟩
  · rw [h₁.table] at he
    refine .after hopen ?_
    have edit (fresh : ∀ other ∈ t.findName? name, other = slot) :
        Harmless size site (Kept c size (.rename slot name) t b w) (do
          let table ← require (t.modifyEntry slot (·.rename name))
          modify fun s => { s with table }
          c.saveTable
          log (.slotRenamed slot e.nameText name)) s₁ := by
      refine .need h₁.whole.frayed fun t' edited => harmless_newTable hc hsited h₁ ?_ fun s₂ h₂ => ?_
      · simp only [newTable?, writable?_eq_some he hu, Option.bind_eq_bind, Option.bind_some,
          if_pos fresh, edited, Except.toOption]
      · exact .still h₂.whole (ends_log _ _)
    dsimp only
    cases hn : t.findName? name with
    | none => exact edit (by simp [hn])
    | some other =>
      dsimp only
      split
      · exact .still h₁.whole (Ends.throw _ _).bind_error
      next hsame => exact edit (by simpa [hn] using hsame)
  · exact .still h₁.whole (Ends.bind_error hopen)

theorem harmless_createEmptyBlock (hop : op = .createEmptyBlock) :
    Harmless size site (Kept c size op t b w) c.createEmptyBlock s := by
  subst hop
  have hload := (survives_loadTable hsited hw ht).discard
  refine hload.bind ?_
  rintro _ _ ⟨_, -, flash, rfl, hcells⟩
  obtain ⟨hfirst, hsecond⟩ :
      Kept c size .createEmptyBlock t b w .block (PointerBlock.empty maxPointers).encode ∧
      Kept c size .createEmptyBlock t b w .blockBackup (PointerBlock.empty maxPointers).encode :=
    Kept.block List.mem_cons_self
  refine .after (Ends.modify _ _) (.after (ends_log _ _) ?_)
  have h' : Carries size site (Kept c size .createEmptyBlock t b w) t (.empty maxPointers)
      { s with flash, table := t, block := .empty maxPointers } := ⟨hcells.symm ▸ hw, rfl, rfl⟩
  exact (survives_saveBlock hsited hc h' hfirst hsecond).mono fun _ _ h => h.whole

variable (hb : blockIn? (held site s.flash.device.cells .block) = some b)
include hb

theorem harmless_deleteSlot (hop : op = .delete slot) :
    Harmless size site (Kept c size op t b w) (c.deleteSlot slot) s := by
  subst hop
  refine survives_opened hsited hw ht hb fun e s₁ he hu h₁ => ?_
  refine (survives_disablePointer hsited hc h₁ slot fun b' hb' =>
    Kept.block (mem_opened he hu hb')).bind fun _ s₂ h₂ => ?_
  refine .after (Ends.get _) ?_
  rw [h₂.table]
  refine .need h₂.whole.frayed fun removed hr => harmless_newTable hc hsited h₂ ?_ fun s₃ h₃ => ?_
  · simp [newTable?, writable?_eq_some he hu, hr, Except.toOption]
  · exact .still h₃.whole (ends_log _ _)

theorem harmless_enableSlot (hop : op = .enable slot) :
    Harmless size site (Kept c size op t b w) (c.enableSlot slot) s := by
  subst hop
  refine survives_opened hsited hw ht hb fun e s₁ he hu h₁ => ?_
  exact (survives_enablePointer hsited hc h₁ slot fun b' hb' =>
    Kept.block (mem_opened he hu hb')).mono fun _ _ h => h.whole

theorem harmless_disableSlot (hop : op = .disable slot) :
    Harmless size site (Kept c size op t b w) (c.disableSlot slot) s := by
  subst hop
  refine survives_opened hsited hw ht hb fun e s₁ he hu h₁ => ?_
  exact (survives_disablePointer hsited hc h₁ slot fun b' hb' =>
    Kept.block (mem_opened he hu hb')).mono fun _ _ h => h.whole

theorem harmless_eraseSlot (hop : op = .erase slot) :
    Harmless size site (Kept c size op t b w) (c.eraseSlot slot) s := by
  subst hop
  refine survives_opened hsited hw ht hb fun e s₁ he hu h₁ => ?_
  refine (survives_disablePointer hsited hc h₁ slot fun b' hb' =>
    Kept.block (mem_opened he hu hb')).bind fun _ s₂ h₂ => ?_
  refine (survives_slotPartition h₂).bind fun p s₃ ⟨hbase, hlen, h₃⟩ => ?_
  rw [erase_eq]
  have hin : Within (.erase p.base p.length) e := ⟨hbase.ge, by rw [hbase, hlen]; exact le_rfl⟩
  refine (survives_slotChange hsited (List.mem_of_getElem? he) hu hin h₃).bind fun _ s₄ h₄ => ?_
  exact .still h₄.whole (ends_log _ _)

theorem harmless_programSlot {kind : ImageKind} {image : List UInt8}
    (hop : op = .program kind slot image) :
    Harmless size site (Kept c size op t b w) (c.programSlot kind slot image) s := by
  subst hop
  refine survives_opened hsited hw ht hb fun e s₁ he hu h₁ => ?_
  by_cases hsize : image.isEmpty = true ∨ e.length.toNat < image.length
  · rw [if_pos hsize]
    exact .still h₁.whole (Ends.throw _ _).bind_error
  rw [if_neg hsize]
  obtain ⟨hne, hle⟩ := not_or.mp hsize
  have hcheck := ends_checkImage c kind image s₁
  split at hcheck
  next hpass =>
    have hlisted := List.mem_of_getElem? he
    -- every block saved on the way is one that the statement allows in a copy
    have hkept {b' : PointerBlock} (hb' : b' ∈ b.takenOut e.offset ++
        if kind = .raw then [] else (b.disable e.offset).2.putOnTop e.offset) :
        b' ∈ savedBlocks c t b (.program kind slot image) := by
      refine mem_opened he hu ?_
      rw [if_pos ⟨by simpa using hne, Nat.not_lt.mp hle, hpass⟩]
      exact hb'
    refine .after hcheck ?_
    refine (survives_disablePointer hsited hc h₁ slot fun b' hb' =>
      Kept.block (hkept (List.mem_append_left _ hb'))).bind fun _ s₂ h₂ => ?_
    refine (survives_slotPartition h₂).bind fun p s₃ ⟨hbase, hlen, h₃⟩ => ?_
    have hfit : image.length ≤ p.length := by omega
    have hin : ∀ change ∈ [.erase p.base p.length, .write p.base image], Within change e := by
      rw [hbase, hlen]
      exact inside_replaceChanges (by omega)
    rw [erase_eq, write_eq hfit]
    have herase := hin _ List.mem_cons_self
    have hwrite := hin _ (List.mem_cons_of_mem _ List.mem_cons_self)
    refine (survives_slotChange hsited hlisted hu herase h₃).bind fun _ s₄ h₄ => ?_
    refine (survives_slotChange hsited hlisted hu hwrite h₄).bind fun _ s₅ h₅ => ?_
    refine (survives_compare hsited hlisted hu hbase hlen h₅ 0 image).bind fun _ s₆ h₆ => ?_
    refine .after (ends_log _ _) ?_
    by_cases hk : kind = .raw
    · rw [if_pos hk]
      exact .still h₆.whole (Ends.pure _ _)
    · rw [if_neg hk] at hkept ⊢
      exact (survives_enablePointer hsited hc h₆ slot fun b' hb' =>
        Kept.block (hkept (List.mem_append_right _ hb'))).mono fun _ _ h => h.whole
  next => exact .still h₁.whole hcheck.bind_error

theorem harmless_perform : Harmless size site (Kept c size op t b w) (c.perform op) s := by
  cases op with
  | create name offset length =>
    exact (harmless_createSlot hc hsited hw ht rfl).discard.mono fun _ _ ⟨_, h⟩ => h
  | delete slot => exact harmless_deleteSlot hc hsited hw ht hb rfl
  | rename slot name => exact harmless_renameSlot hc hsited hw ht rfl
  | enable slot => exact harmless_enableSlot hc hsited hw ht hb rfl
  | disable slot => exact harmless_disableSlot hc hsited hw ht hb rfl
  | erase slot => exact harmless_eraseSlot hc hsited hw ht hb rfl
  | program kind slot image => exact harmless_programSlot hc hsited hw ht hb rfl
  | createEmptyBlock => exact harmless_createEmptyBlock hc hsited hw ht rfl

end Operations

/-- Of two copies, one is not the one that does not hold what is allowed. -/
theorem Frayed.one_of (h : Frayed site A cells) (k k' : Copy) (hne : k ≠ k') :
    A k (held site cells k) ∨ A k' (held site cells k') := by
  obtain ⟨j, hj⟩ := h
  by_cases hk : k = j
  · exact .inr (hj k' (hk ▸ hne.symm))
  · exact .inl (hj k hk)

/-- On a device whose copies are in step, whichever calls fail and whatever they leave in the range that
they address, one window holds the old partition table or the one that the operation makes, and one window
holds the old pointer block or one that the operation saves. -/
theorem perform_keeps_metadata (c : Session ρ) (hc : Compact c) (op : SlotOperation)
    (s : SessionState ρ TornFlash) (t : PartitionTable) (b : PointerBlock) (site : Copy → UInt64)
    (ht : c.storedTable? s.flash.device.cells = some t)
    (hb : c.storedBlock? s.flash.device.cells t = some b)
    (hsited : Sited c s.flash.device.cells.size t site)
    (htables : held site s.flash.device.cells .table = held site s.flash.device.cells .tableBackup)
    (hblocks : held site s.flash.device.cells .block = held site s.flash.device.cells .blockBackup) :
    ∃ r s', Ends (c.perform op) s r s' ∧
      (∃ k ∈ [Copy.table, Copy.tableBackup],
        held site s'.flash.device.cells k = held site s.flash.device.cells .table ∨
          ∃ t', newTable? s.flash.device.cells.size t op = some t' ∧
            held site s'.flash.device.cells k = t'.encode) ∧
      ∃ k ∈ [Copy.block, Copy.blockBackup],
        held site s'.flash.device.cells k = held site s.flash.device.cells .block ∨
          ∃ b' ∈ savedBlocks c t b op, held site s'.flash.device.cells k = b'.encode := by
  have hwhole : Whole s.flash.device.cells.size site
      (Kept c s.flash.device.cells.size op t b (held site s.flash.device.cells)) s.flash.device.cells :=
    ⟨rfl, fun k => .inl rfl⟩
  obtain ⟨r, s', hends, hleft⟩ := harmless_perform hc hsited hwhole
    ((storedTable?_eq hsited.table).symm.trans ht) ((storedBlock?_eq hsited.block).symm.trans hb)
  have hfrayed : Frayed site (Kept c s.flash.device.cells.size op t b (held site s.flash.device.cells))
      s'.flash.device.cells := by
    cases r with
    | ok a => exact Whole.frayed hleft
    | error e => exact hleft
  refine ⟨r, s', hends, ?_, ?_⟩
  · -- at most one copy is left torn, so of two equal ones one is still to be read
    rcases hfrayed.one_of .table .tableBackup nofun with h | h
    · exact ⟨.table, List.mem_cons_self, h⟩
    · rw [htables]
      exact ⟨.tableBackup, List.mem_cons_of_mem _ List.mem_cons_self, h⟩
  · rcases hfrayed.one_of .block .blockBackup nofun with h | h
    · exact ⟨.block, List.mem_cons_self, h⟩
    · rw [hblocks]
      exact ⟨.blockBackup, List.mem_cons_of_mem _ List.mem_cons_self, h⟩

/-- A device with a slot, on which one call fails and leaves zeros. -/
def tornState (n : ℕ) : SessionState Unit TornFlash where
  channel := { registers := () }
  flash := {
    device := slotFlash
    schedule := fun k => if k = n then some (.failed, fun _ => 0) else none }

/-- The slot is enabled while the call that writes the first pointer block tears it. -/
theorem perform_keeps_metadata_torn : ∃ r s',
    Ends (plainSession.perform (.enable 6)) (tornState 3) r s' ∧
      (∃ k ∈ [Copy.table, Copy.tableBackup],
        held plainSite s'.flash.device.cells k = held plainSite slotFlash.cells .table ∨
          ∃ t', newTable? slotFlash.cells.size slotPlan.table (.enable 6) = some t' ∧
            held plainSite s'.flash.device.cells k = t'.encode) ∧
      ∃ k ∈ [Copy.block, Copy.blockBackup],
        held plainSite s'.flash.device.cells k = held plainSite slotFlash.cells .block ∨
          ∃ b' ∈ savedBlocks plainSession slotPlan.table slotPlan.block (.enable 6),
            held plainSite s'.flash.device.cells k = b'.encode :=
  perform_keeps_metadata plainSession compact_plainSession (.enable 6) (tornState 3) slotPlan.table
    slotPlan.block plainSite stores_slotFlash.table stores_slotFlash.block sited_slotFlash tables_slotFlash
    blocks_slotFlash

end Session

end RemoteUpdate
