import RemoteUpdate.Proofs.Runs
import RemoteUpdate.Proofs.Flash.Changes
import RemoteUpdate.Proofs.Table.Pointers
import RemoteUpdate.Session.Slots

/-!
# What a session does to flash

`Performs` says which changes a program makes in flash, in which order, and what it ends with if none of
them fails; if one does, the program ends there with that failure. What a program reads it reads from
the cells of the device, so that loading a table is an equation about the cells.
-/

namespace RemoteUpdate

variable {ρ φ α β : Type}

namespace Session

/-! ### Steps that leave flash alone -/

/-- Where the table lists the partition of that name. -/
def placeOf? (t : PartitionTable) (name : String) : Option UInt64 :=
  (t.listed.find? (·.isNamed name)).map (·.offset)

theorem ends_log (e : SessionEvent) (s : SessionState ρ φ) : Ends (log e) s (.ok ()) s :=
  fun logged => ⟨logged.push (.session e), rfl⟩

theorem ends_require (r : Except UpdateError α) (s : SessionState ρ φ) : Ends (require r) s r s :=
  fun logged => ⟨logged, rfl⟩

theorem ends_onFlash (x : FlashM φ α) (s : SessionState ρ φ) :
    Ends (onFlash x) s ((x.outcome s.flash).1.mapError .flash)
      { s with flash := (x.outcome s.flash).2 } :=
  fun logged => ⟨logged, rfl⟩

theorem ends_onMailbox {x : MailboxM ρ α} {s : SessionState ρ φ} {r : Except MailboxError α} {registers : ρ}
    (h : Ends x s.channel.registers r registers) : Ends (onMailbox x) s (r.mapError .ofMailbox)
      { s with channel := { s.channel with registers } } := by
  have hchannel : Returns (Channel.onRegisters x.run) s.channel r { s.channel with registers } :=
    Returns.focus h
  exact Returns.bind (Returns.focus hchannel) (Returns.pure _ _)

theorem ends_logFailure {x : SessionM ρ φ α} {e : SessionEvent} {r : Except UpdateError α}
    {s' : SessionState ρ φ} (h : Ends x s r s') : Ends (logFailure e x) s r s' := by
  unfold logFailure
  cases r with
  | ok a => exact h.tryCatch_ok
  | error failure => exact h.tryCatch_error ((ends_log e s').bind (Ends.throw failure s'))

theorem ends_verifiedTable (t : PartitionTable) (s : SessionState ρ φ) :
    Ends (verifiedTable t) s (if t.verifies then .ok t else .error .corruptMetadata) s := by
  unfold verifiedTable PartitionTable.verifies
  cases t.defect? with
  | none => exact Ends.pure t s
  | some defect => exact (ends_log defect s).bind (Ends.throw _ s)

theorem ends_verifiedBlock (b : PointerBlock) (s : SessionState ρ φ) :
    Ends (verifiedBlock b) s (if b.verifies then .ok b else .error .corruptMetadata) s := by
  unfold verifiedBlock PointerBlock.verifies
  cases b.defect? with
  | none => exact Ends.pure b s
  | some defect => exact (ends_log defect s).bind (Ends.throw _ s)

theorem ends_partitionOffset? (name : String) (s : SessionState ρ φ) :
    Ends (partitionOffset? name) s (.ok (placeOf? s.table name)) s :=
  (Ends.get s).bind (Ends.pure _ s)

theorem ends_blockOffset (c : Session ρ) (s : SessionState ρ φ) : Ends c.blockOffset s
    (match placeOf? s.table c.layout.blockName with
      | some offset => .ok offset
      | none => .error .notFound) s := by
  refine (ends_partitionOffset? _ s).bind ?_
  cases placeOf? s.table c.layout.blockName with
  | some offset => exact Ends.pure _ s
  | none => exact (ends_log _ s).bind (Ends.throw _ s)

end Session

variable [FlashDevice φ]

/-! ### Programs that change flash -/

/-- From `s` the program makes the changes up to the first that fails. If none fails it ends with `r` and
leaves these scratch copies. -/
def Performs (x : SessionM ρ φ α) (s : SessionState ρ φ) (changes : List FlashChange)
    (r : Except UpdateError α) (table : PartitionTable) (block : PointerBlock) : Prop :=
  match (playAll changes).outcome s.flash with
  | (.ok (), flash) => Ends x s r { s with flash, table, block }
  | (.error fault, flash) =>
    ∃ table block, Ends x s (.error (.flash fault)) { s with flash, table, block }

namespace Performs

variable {x : SessionM ρ φ α} {g : α → SessionM ρ φ β} {s s' : SessionState ρ φ} {a : α} {e : UpdateError}
  {changes l : List FlashChange} {r : Except UpdateError α} {r' : Except UpdateError β}
  {t t' : PartitionTable} {b b' : PointerBlock}

theorem of_ends (h : Ends x s r { s with table := t, block := b }) : Performs x s [] r t b := h

theorem pure (a : α) (s : SessionState ρ φ) :
    Performs (Pure.pure a : SessionM ρ φ α) s [] (.ok a) s.table s.block :=
  of_ends (Ends.pure a s)

theorem throw (e : UpdateError) (s : SessionState ρ φ) :
    Performs (throw e : SessionM ρ φ α) s [] (.error e) s.table s.block :=
  of_ends (Ends.throw e s)

theorem bind (h : Performs x s changes (.ok a) t b)
    (h' : ∀ flash, (playAll changes).outcome s.flash = (.ok (), flash) →
      Performs (g a) { s with flash, table := t, block := b } l r' t' b') :
    Performs (x >>= g) s (changes ++ l) r' t' b' := by
  unfold Performs at h ⊢
  rcases hp : (playAll changes).outcome s.flash with ⟨fault | ⟨⟨⟩⟩, f⟩
  · rw [hp] at h
    obtain ⟨t₁, b₁, h⟩ := h
    rw [playAll_append_error hp]
    exact ⟨t₁, b₁, h.bind_error⟩
  · rw [hp] at h
    rw [playAll_append_ok hp]
    have := h' f hp
    unfold Performs at this
    rcases hq : (playAll l).outcome f with ⟨fault | ⟨⟨⟩⟩, f'⟩
    · rw [hq] at this
      obtain ⟨t₁, b₁, this⟩ := this
      exact ⟨t₁, b₁, h.bind this⟩
    · rw [hq] at this
      exact h.bind this

theorem bind_error (h : Performs x s changes (.error e) t b) :
    Performs (x >>= g) s changes (.error e) t b := by
  unfold Performs at h ⊢
  rcases hp : (playAll changes).outcome s.flash with ⟨fault | ⟨⟨⟩⟩, f⟩
  · rw [hp] at h
    obtain ⟨t₁, b₁, h⟩ := h
    exact ⟨t₁, b₁, h.bind_error⟩
  · rw [hp] at h
    exact h.bind_error

theorem after (h : Ends x s (.ok a) { s with table := t, block := b })
    (h' : Performs (g a) { s with table := t, block := b } changes r' t' b') :
    Performs (x >>= g) s changes r' t' b' := by
  rw [← List.nil_append changes]
  refine (of_ends h).bind fun f hf => ?_
  obtain ⟨-, rfl⟩ := Prod.mk.inj hf
  exact h'

theorem after_same (h : Ends x s (.ok a) s) (h' : Performs (g a) s changes r' t' b') :
    Performs (x >>= g) s changes r' t' b' :=
  after (t := s.table) (b := s.block) h h'

theorem andThen (h : Performs x s changes (.ok a) t b)
    (h' : ∀ flash, Ends (g a) { s with flash, table := t, block := b } r' { s with flash, table := t', block := b' }) :
    Performs (x >>= g) s changes r' t' b' := by
  rw [← List.append_nil changes]
  exact h.bind fun flash _ => of_ends (h' flash)

/-- If no change fails, the run ends as planned. -/
theorem ends_of_ok {f : φ} (h : Performs x s changes r t b)
    (hplay : (playAll changes).outcome s.flash = (.ok (), f)) :
    Ends x s r { s with flash := f, table := t, block := b } := by
  unfold Performs at h
  rwa [hplay] at h

/-- A device that does not fail makes all changes of its own range. -/
theorem ends_of_fits {x : SessionM ρ EmulatedFlash α} {s : SessionState ρ EmulatedFlash}
    (h : Performs x s changes r t b) (hf : s.flash.failing = false)
    (hfit : ∀ change ∈ changes, change.Fits s.flash.cells) :
    ∃ f, Ends x s r { s with flash := f, table := t, block := b } ∧
      f.cells = afterAll changes s.flash.cells ∧ f.failing = false := by
  obtain ⟨f, hplay, hf'⟩ := EmulatedFlash.playAll_of_fits hfit hf
  exact ⟨f, h.ends_of_ok hplay, (cells_playAll hplay).2, hf'⟩

/-- The run ends, with the device that the changes leave. -/
theorem ends (h : Performs x s changes r t b) : ∃ r s', Ends x s r s' ∧
    s'.flash = ((playAll changes).outcome s.flash).2 ∧ s'.channel = s.channel := by
  unfold Performs at h
  rcases hp : (playAll changes).outcome s.flash with ⟨fault | ⟨⟨⟩⟩, f⟩
  · rw [hp] at h
    obtain ⟨t₁, b₁, h⟩ := h
    exact ⟨_, _, h, rfl, rfl⟩
  · rw [hp] at h
    exact ⟨_, _, h, rfl, rfl⟩

/-- The run ends after some of the first changes, and succeeds only after all of them and as planned. -/
theorem front [KeepsCells φ] (h : Performs x s changes r t b) : ∃ front r' s', front <+: changes ∧
    Ends x s r' s' ∧ cells s'.flash = afterAll front (cells s.flash) ∧
      ∀ a, r' = .ok a → front = changes ∧ r = .ok a := by
  obtain ⟨front, hfront, hcells, hall⟩ := playAll_front changes s.flash
  unfold Performs at h
  rcases hp : (playAll changes).outcome s.flash with ⟨fault | ⟨⟨⟩⟩, f⟩
  · rw [hp] at h hcells
    obtain ⟨t₁, b₁, h⟩ := h
    exact ⟨front, _, _, hfront, h, hcells, nofun⟩
  · rw [hp] at h hcells hall
    exact ⟨front, r, _, hfront, h, hcells, fun a ha => ⟨hall rfl, ha⟩⟩

end Performs

namespace Session

variable {c : Session ρ} {s : SessionState ρ φ}

/-! ### Calls of the device -/

theorem performs_change (change : FlashChange) (s : SessionState ρ φ) :
    Performs (onFlash change.play) s [change] (.ok ()) s.table s.block := by
  have h := ends_onFlash change.play s
  unfold Performs
  rw [playAll]
  rcases hp : (change.play : FlashM φ Unit).outcome s.flash with ⟨fault | ⟨⟨⟩⟩, f⟩
  · rw [hp] at h
    rw [outcome_bind_error hp]
    exact ⟨_, _, h⟩
  · rw [hp] at h
    rw [outcome_bind_ok hp]
    exact h

theorem ends_read [KeepsCells φ] (address length : ℕ) (s : SessionState ρ φ) :
    Ends (onFlash (FlashDevice.read address length)) s
      (if address + length ≤ (cells s.flash).size then .ok (Cells.slice (cells s.flash) address length)
        else .error (.flash .size)) s := by
  have h := ends_onFlash (FlashDevice.read address length) s
  rw [KeepsCells.read_eq] at h
  split
  next hr =>
    rw [if_pos hr] at h
    exact h
  next hr =>
    rw [if_neg hr] at h
    exact h

/-! ### Loading -/

/-- The partition table that counts, if it can be used. -/
def storedTable? (c : Session ρ) (cells : ByteArray) : Option PartitionTable :=
  (PartitionTable.decode (Cells.slice cells c.tableOffsets.1.toNat tableSize)).toOption.filter
    (·.verifies)

/-- The pointer block that counts, by a partition table, if it can be used. -/
def storedBlock? (c : Session ρ) (cells : ByteArray) (t : PartitionTable) : Option PointerBlock :=
  (placeOf? t c.layout.blockName).bind fun offset =>
    (PointerBlock.decode (Cells.slice cells offset.toNat tableSize)).toOption.filter (·.verifies)

/-- A range that does not fit holds no table. -/
theorem not_decoded {cells : ByteArray} {a : ℕ} (h : ¬ a + tableSize ≤ cells.size) :
    (Cells.slice cells a tableSize).length < tableSize := by
  have : 0 < tableSize := by decide
  rw [Cells.length_slice]
  omega

section Reading

variable {f : φ} {bytes : List UInt8} {t : PartitionTable} {b : PointerBlock} {place : UInt64}

/-- A device may show what it likes, and change with each read. -/
theorem ends_loadTable_of_read
    (hread : (FlashDevice.read c.tableOffsets.1.toNat tableSize).outcome s.flash = (.ok bytes, f))
    (hd : PartitionTable.decode bytes = .ok t) (hv : t.verifies = true) :
    Ends c.loadTable s (.ok t) { s with flash := f, table := t } := by
  have hbytes := ends_onFlash (FlashDevice.read c.tableOffsets.1.toNat tableSize) s
  rw [hread] at hbytes
  have hdecoded := ends_require (PartitionTable.decode bytes) { s with flash := f }
  rw [hd] at hdecoded
  have hverified := ends_verifiedTable t { s with flash := f }
  rw [hv] at hverified
  have htable : Ends (do
      let bytes ← onFlash (FlashDevice.read c.tableOffsets.1.toNat tableSize)
      verifiedTable (← require (PartitionTable.decode bytes))) s (.ok t) { s with flash := f } := by
    refine hbytes.bind ?_
    rw [hd]
    exact hdecoded.bind hverified
  exact (ends_logFailure htable).bind ((Ends.modify _ _).bind (Ends.pure _ _))

theorem ends_loadBlock_of_read (hp : placeOf? s.table c.layout.blockName = some place)
    (hread : (FlashDevice.read place.toNat tableSize).outcome s.flash = (.ok bytes, f))
    (hd : PointerBlock.decode bytes = .ok b) (hv : b.verifies = true) :
    Ends c.loadBlock s (.ok b) { s with flash := f, block := b } := by
  have hplace := ends_blockOffset c s
  rw [hp] at hplace
  have hbytes := ends_onFlash (FlashDevice.read place.toNat tableSize) s
  rw [hread] at hbytes
  have hdecoded := ends_require (PointerBlock.decode bytes) { s with flash := f }
  rw [hd] at hdecoded
  have hverified := ends_logFailure (e := .blockCorrupt place) (ends_verifiedBlock b { s with flash := f })
  rw [hv] at hverified
  refine hplace.bind (hbytes.bind ?_)
  rw [hd]
  exact hdecoded.bind (hverified.bind ((Ends.modify _ _).bind (Ends.pure _ _)))

end Reading

section Loading

variable [KeepsCells φ]

/-- The partition table is loaded, or nothing changes. -/
theorem loadTable_cases (c : Session ρ) (s : SessionState ρ φ) :
    (∃ t, c.storedTable? (cells s.flash) = some t ∧ Ends c.loadTable s (.ok t) { s with table := t }) ∨
      c.storedTable? (cells s.flash) = none ∧ ∃ e, Ends c.loadTable s (.error e) s := by
  have hread := ends_read c.tableOffsets.1.toNat tableSize s
  have houtcome := KeepsCells.read_eq s.flash c.tableOffsets.1.toNat tableSize
  unfold storedTable?
  by_cases hr : c.tableOffsets.1.toNat + tableSize ≤ (cells s.flash).size
  · rw [if_pos hr] at hread houtcome
    cases hd : PartitionTable.decode (Cells.slice (cells s.flash) c.tableOffsets.1.toNat tableSize) with
    | error e =>
      refine Or.inr ⟨rfl, e, Ends.bind_error (ends_logFailure (hread.bind ?_))⟩
      exact Ends.bind_error (by rw [hd]; exact ends_require _ s)
    | ok t =>
      cases hv : t.verifies with
      | true => exact Or.inl ⟨t, by simp [Except.toOption, hv], ends_loadTable_of_read houtcome hd hv⟩
      | false =>
        have hver := ends_verifiedTable t s
        rw [hv] at hver
        refine Or.inr ⟨by simp [Except.toOption, hv], .corruptMetadata,
          Ends.bind_error (ends_logFailure (hread.bind ?_))⟩
        exact Ends.bind (by rw [hd]; exact ends_require _ s) hver
  · rw [if_neg hr] at hread
    rw [PartitionTable.decode, if_pos (not_decoded hr)]
    exact Or.inr ⟨rfl, _, Ends.bind_error (ends_logFailure hread.bind_error)⟩

/-- The pointer block that the scratch partition table lists is loaded, or nothing changes. -/
theorem loadBlock_cases (c : Session ρ) (s : SessionState ρ φ) :
    (∃ b, c.storedBlock? (cells s.flash) s.table = some b ∧
        Ends c.loadBlock s (.ok b) { s with block := b }) ∨
      c.storedBlock? (cells s.flash) s.table = none ∧ ∃ e, Ends c.loadBlock s (.error e) s := by
  have hplace := ends_blockOffset c s
  unfold storedBlock?
  -- the ways to fail in their order: no entry, out of range, not decoded, not verified
  cases hp : placeOf? s.table c.layout.blockName with
  | none =>
    rw [hp] at hplace
    exact Or.inr ⟨rfl, _, hplace.bind_error⟩
  | some place =>
    rw [hp] at hplace
    rw [Option.bind_some]
    have hread := ends_read place.toNat tableSize s
    have houtcome := KeepsCells.read_eq s.flash place.toNat tableSize
    by_cases hr : place.toNat + tableSize ≤ (cells s.flash).size
    · rw [if_pos hr] at hread houtcome
      cases hd : PointerBlock.decode (Cells.slice (cells s.flash) place.toNat tableSize) with
      | error e =>
        refine Or.inr ⟨rfl, e, hplace.bind (hread.bind (Ends.bind_error ?_))⟩
        rw [hd]
        exact ends_require _ s
      | ok b =>
        cases hv : b.verifies with
        | true => exact Or.inl ⟨b, by simp [Except.toOption, hv], ends_loadBlock_of_read hp houtcome hd hv⟩
        | false =>
          have hver := ends_logFailure (e := .blockCorrupt place) (ends_verifiedBlock b s)
          rw [hv] at hver
          refine Or.inr ⟨by simp [Except.toOption, hv], .corruptMetadata, hplace.bind (hread.bind ?_)⟩
          exact Ends.bind (by rw [hd]; exact ends_require _ s) hver.bind_error
    · rw [if_neg hr] at hread
      rw [PointerBlock.decode, if_pos (not_decoded hr)]
      exact Or.inr ⟨rfl, _, hplace.bind hread.bind_error⟩

/-- Both tables are loaded, or at most the partition table is. -/
theorem load_cases (c : Session ρ) (s : SessionState ρ φ) :
    (∃ t b, c.storedTable? (cells s.flash) = some t ∧ c.storedBlock? (cells s.flash) t = some b ∧
        Ends c.load s (.ok ()) { s with table := t, block := b }) ∨
      ∃ e t, Ends c.load s (.error e) { s with table := t } := by
  unfold load
  rcases c.loadTable_cases s with ⟨t, ht, h⟩ | ⟨-, e, h⟩
  · have hd : Ends (discard c.loadTable) s (.ok ()) { s with table := t } := h.bind (Ends.pure _ _)
    rcases c.loadBlock_cases { s with table := t } with ⟨b, hb, h'⟩ | ⟨-, e, h'⟩
    · exact Or.inl ⟨t, b, ht, hb, hd.bind (h'.bind (Ends.pure _ _))⟩
    · exact Or.inr ⟨e, t, hd.bind h'.bind_error⟩
  · exact Or.inr ⟨e, s.table, Ends.bind_error h.bind_error⟩

theorem ends_loadTable {t : PartitionTable} (ht : c.storedTable? (cells s.flash) = some t) :
    Ends c.loadTable s (.ok t) { s with table := t } := by
  rcases c.loadTable_cases s with ⟨t', ht', h⟩ | ⟨hnone, -⟩
  · obtain rfl := Option.some.inj (ht.symm.trans ht')
    exact h
  · rw [ht] at hnone
    cases hnone

theorem ends_loadBlock {b : PointerBlock} (hb : c.storedBlock? (cells s.flash) s.table = some b) :
    Ends c.loadBlock s (.ok b) { s with block := b } := by
  rcases c.loadBlock_cases s with ⟨b', hb', h⟩ | ⟨hnone, -⟩
  · obtain rfl := Option.some.inj (hb.symm.trans hb')
    exact h
  · rw [hb] at hnone
    cases hnone

theorem ends_load {t : PartitionTable} {b : PointerBlock}
    (ht : c.storedTable? (cells s.flash) = some t)
    (hb : c.storedBlock? (cells s.flash) t = some b) :
    Ends c.load s (.ok ()) { s with table := t, block := b } :=
  (ends_loadTable ht).discard_ok.bind (ends_loadBlock (s := { s with table := t }) hb).discard_ok

end Loading

/-! ### Saving -/

/-- The changes that put a table in its space. -/
def replaceChanges (offset : UInt64) (space : ℕ) (bytes : List UInt8) : List FlashChange :=
  [.erase offset.toNat space, .write offset.toNat bytes]

/-- The changes that save a partition table, second copy first. -/
def tableChanges (c : Session ρ) (t : PartitionTable) : List FlashChange :=
  replaceChanges c.tableOffsets.2 c.layout.tableSpace t.encode ++
    replaceChanges c.tableOffsets.1 c.layout.tableSpace t.encode

def blockPlaces (c : Session ρ) (t : PartitionTable) : List UInt64 :=
  match placeOf? t c.layout.blockName with
  | some offset => offset :: (placeOf? t c.layout.backupName).toList
  | none => []

/-- The changes that save a pointer block by a partition table. -/
def blockChanges (c : Session ρ) (t : PartitionTable) (b : PointerBlock) : List FlashChange :=
  (c.blockPlaces t).flatMap fun offset => replaceChanges offset c.layout.blockSpace b.encode

/-- What was written last to a place is there. -/
theorem slice_replaceChanges {cells : ByteArray} {offset : UInt64} {space : ℕ} {bytes : List UInt8}
    (rest : List FlashChange)
    (h : ∀ change ∈ replaceChanges offset space bytes ++ rest, change.Fits cells)
    (hd : ∀ change ∈ rest, Cells.Apart change.address change.length offset.toNat bytes.length) :
    Cells.slice (afterAll (replaceChanges offset space bytes ++ rest) cells) offset.toNat bytes.length =
      bytes := by
  have hrep : ∀ change ∈ replaceChanges offset space bytes, change.Fits cells :=
    fun change hc => h change (List.mem_append_left _ hc)
  rw [afterAll_append, slice_afterAll_apart _ hd]
  · have herase := hrep _ List.mem_cons_self
    have hwrite := hrep _ (List.mem_cons_of_mem _ List.mem_cons_self)
    exact FlashChange.slice_on (hwrite.of_size (FlashChange.size_on herase))
  · exact fun change hc => (h change (List.mem_append_right _ hc)).afterAll hrep

theorem inside_replaceChanges {offset : UInt64} {space : ℕ} {bytes : List UInt8}
    (hl : bytes.length ≤ space) :
    ∀ change ∈ replaceChanges offset space bytes, change.Inside offset.toNat space := by
  intro change hm
  rcases List.mem_cons.mp hm with rfl | hm
  · exact ⟨Nat.le_refl _, Nat.le_refl _⟩
  · rw [List.mem_singleton.mp hm]
    exact ⟨Nat.le_refl _, Nat.add_le_add_left hl _⟩

theorem replaceChanges_apart {offset : UInt64} {space a n : ℕ} {bytes : List UInt8}
    (hl : bytes.length ≤ space) (hd : Cells.Apart offset.toNat space a n) :
    ∀ change ∈ replaceChanges offset space bytes, Cells.Apart change.address change.length a n :=
  fun change hm => (inside_replaceChanges hl change hm).apart hd

/-- Tables that are put in spaces apart from one another are all there. -/
theorem slice_flatMap_replaceChanges {space : ℕ} {l : List (UInt64 × List UInt8)} {cells : ByteArray}
    (hl : ∀ x ∈ l, x.2.length ≤ space)
    (hd : l.Pairwise fun x y => Cells.Apart x.1.toNat space y.1.toNat space)
    (hfit : ∀ change ∈ l.flatMap fun x => replaceChanges x.1 space x.2, change.Fits cells) :
    ∀ x ∈ l, Cells.slice (afterAll (l.flatMap fun x => replaceChanges x.1 space x.2) cells)
      x.1.toNat x.2.length = x.2 := by
  induction l generalizing cells with
  | nil => simp
  | cons y l ih =>
    obtain ⟨hy, hl⟩ := List.forall_mem_cons.mp hl
    obtain ⟨hapart, hd⟩ := List.pairwise_cons.mp hd
    rw [List.flatMap_cons] at hfit ⊢
    obtain ⟨hfits, hfits'⟩ := List.forall_mem_append.mp hfit
    refine List.forall_mem_cons.mpr ⟨slice_replaceChanges _ hfit fun change hc => ?_, fun x hx => ?_⟩
    · obtain ⟨x, hx, hc⟩ := List.mem_flatMap.mp hc
      exact replaceChanges_apart (hl x hx) ((hapart x hx).symm.mono hy) change hc
    · rw [afterAll_append]
      exact ih hl hd (fun change hc => (hfits' change hc).afterAll hfits) x hx

theorem performs_replace (offset : UInt64) (space : ℕ) (bytes : List UInt8) (s : SessionState ρ φ) :
    Performs (replace offset space bytes) s (replaceChanges offset space bytes) (.ok ())
      s.table s.block :=
  (performs_change (.erase offset.toNat space) s).bind fun _ _ =>
    performs_change (.write offset.toNat bytes) _

theorem performs_saveTable (c : Session ρ) (s : SessionState ρ φ) :
    Performs c.saveTable s (c.tableChanges s.table) (.ok ()) s.table s.block := by
  refine Performs.after_same (Ends.get s) ?_
  refine (performs_replace _ _ _ s).bind fun _ _ => ?_
  exact (performs_replace _ _ _ _).andThen fun _ => ends_log _ _

theorem performs_saveBlock (c : Session ρ) (s : SessionState ρ φ) :
    Performs c.saveBlock s (c.blockChanges s.table s.block)
      (if (placeOf? s.table c.layout.blockName).isSome then .ok () else .error .notFound)
      s.table s.block := by
  have hplace := ends_blockOffset c s
  unfold blockChanges blockPlaces
  split at hplace
  next offset hp =>
    rw [hp]
    refine Performs.after_same hplace (Performs.after_same (Ends.get s) ?_)
    rw [List.flatMap_cons]
    refine (performs_replace _ _ _ s).bind fun flash _ => ?_
    refine Performs.after_same (ends_partitionOffset? _ _) ?_
    cases placeOf? s.table c.layout.backupName with
    | none => exact Performs.of_ends (ends_log _ _)
    | some backup =>
      rw [Option.toList_some, List.flatMap_singleton]
      exact (performs_replace _ _ _ _).andThen fun _ => ends_log _ _
  next hp =>
    rw [hp]
    exact (Performs.of_ends hplace).bind_error

/-- The changes that take a pointer out of a block. -/
def disableChanges (c : Session ρ) (t : PartitionTable) (b : PointerBlock) (p : UInt64) :
    List FlashChange :=
  if (b.disable p).1 then c.blockChanges t (b.disable p).2 else []

/-- The changes that put a pointer on top of a block. -/
def enableChanges (c : Session ρ) (t : PartitionTable) (b : PointerBlock) (p : UInt64) :
    List FlashChange :=
  match (b.enable p).1 with
  | .ok true => c.blockChanges t (b.enable p).2
  | _ => []

/-- What enabling ends with, by what became of the pointer. -/
def placementResult : Except PlacementError Bool → Except UpdateError Unit
  | .ok _ => .ok ()
  | .error failure => .error failure.toUpdateError

section Pointers

variable {offset : UInt64} (slot : ℕ) (e : PartitionEntry)

theorem performs_disablePointer (hp : placeOf? s.table c.layout.blockName = some offset) :
    Performs (c.disablePointer slot e) s (c.disableChanges s.table s.block e.offset) (.ok ())
      s.table (s.block.disable e.offset).2 := by
  refine Performs.after_same (Ends.get s) ?_
  unfold disableChanges
  rcases hd : s.block.disable e.offset with ⟨changed, b⟩
  cases changed with
  | false =>
    have := PointerBlock.disable_of_not_changed (b := s.block) (p := e.offset) (by rw [hd])
    rw [hd] at this
    obtain rfl : b = s.block := this
    exact Performs.pure _ _
  | true =>
    refine Performs.after (t := s.table) (Ends.modify _ s) ?_
    have := performs_saveBlock c { s with block := b }
    dsimp only at this
    rw [hp] at this
    exact this.andThen fun _ => ends_log _ _

theorem performs_enablePointer (hp : placeOf? s.table c.layout.blockName = some offset) :
    Performs (c.enablePointer slot e) s (c.enableChanges s.table s.block e.offset)
      (placementResult (s.block.enable e.offset).1) s.table (s.block.enable e.offset).2 := by
  refine Performs.after_same (Ends.get s) ?_
  unfold enableChanges
  rcases hd : s.block.enable e.offset with ⟨placed, b⟩
  refine Performs.after (t := s.table) (Ends.modify _ s) ?_
  rcases placed with failure | (_ | _)
  · cases failure with
    | full => exact Performs.of_ends ((ends_log _ _).bind (Ends.throw _ _))
    | noSlot => exact Performs.throw _ _
  · exact Performs.pure _ _
  · have := performs_saveBlock c { s with block := b }
    dsimp only at this
    rw [hp] at this
    exact this.andThen fun _ => ends_log _ _

end Pointers

end Session

end RemoteUpdate
