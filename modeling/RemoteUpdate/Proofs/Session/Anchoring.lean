import RemoteUpdate.Proofs.Session.Stages
import RemoteUpdate.Proofs.Session.BootSafety

/-!
# Pointers refer to entries

On a device where any call may fail, every call of every operation finds the pointers of the stored block
among the offsets of the stored partition table. An entry is removed only after its pointer, and a pointer is
put in only for an entry that is there, so every stage of a course keeps the windows anchored, wherever it
stops. Pointers need not be distinct.
-/

namespace RemoteUpdate.Session

variable {ρ : Type} {c : Session ρ} {cells : ByteArray} {t : PartitionTable} {b : PointerBlock}
  {size : ℕ} {site : Copy → UInt64} {w : Copy → List UInt8} {bo : Option PointerBlock}
  {stages : List Stage} {op : SlotOperation} {changes : List FlashChange} {r : Except UpdateError Unit}

/-! ### Windows -/

/-- The windows hold a good partition table, and a block whose pointers it lists if they hold any. -/
structure Anchor (c : Session ρ) (size : ℕ) (site : Copy → UInt64) (w : Copy → List UInt8)
    (t : PartitionTable) (bo : Option PointerBlock) : Prop where
  table : tableIn? (w .table) = some t
  block : blockIn? (w .block) = bo
  sited : Sited c size t site
  boots : ∀ b, bo = some b → Bootable t b

theorem Anchor.anchored (h : Anchor c size site w t bo) : Anchored c size site w := by
  intro t' ht'
  obtain rfl := Option.some.inj (h.table.symm.trans ht')
  exact ⟨h.sited, fun b hb => h.boots b (h.block.symm.trans hb)⟩

theorem Anchored.anchor (h : Anchored c size site w) (ht : tableIn? (w .table) = some t) :
    Anchor c size site w t (blockIn? (w .block)) :=
  ⟨ht, rfl, (h t ht).1, (h t ht).2⟩

theorem Anchor.of_stored (ht : c.storedTable? cells = some t) (hb : c.storedBlock? cells t = some b)
    (hs : Sited c size t site) (hboots : Bootable t b) :
    Anchor c size site (held site cells) t (some b) := by
  refine ⟨by rw [← storedTable?_eq hs.table, ht], by rw [← storedBlock?_eq hs.block, hb], hs, ?_⟩
  rintro _ ⟨⟩
  exact hboots

/-- Only the copies that count matter. -/
theorem Anchor.congr {w' : Copy → List UInt8} (h : Anchor c size site w t bo)
    (ht : w' .table = w .table) (hb : w' .block = w .block) : Anchor c size site w' t bo :=
  ⟨ht ▸ h.table, hb ▸ h.block, h.sited, h.boots⟩

/-- Without a partition table there is nothing to refer to. -/
theorem anchored_of_erased (h : w .table = erasedTable) : Anchored c size site w := by
  intro t ht
  rw [h, tableIn?_erased] at ht
  cases ht

theorem Anchor.with_table {t' : PartitionTable} {w' : Copy → List UInt8}
    (h : Anchor c size site w t bo) (hs : Sited c size t' site) (hv : t'.verifies = true)
    (hb : ∀ b, bo = some b → Bootable t' b) (ht' : w' .table = t'.encode) (hb' : w' .block = w .block) :
    Anchor c size site w' t' bo :=
  ⟨by rw [ht', tableIn?_encode hv], by rw [hb', h.block], hs, hb⟩

theorem Anchor.with_block {b' : PointerBlock} {w' : Copy → List UInt8} (h : Anchor c size site w t bo)
    (hv : b'.verifies = true) (hb : Bootable t b') (ht' : w' .table = w .table)
    (hb' : w' .block = b'.encode) : Anchor c size site w' t (some b') := by
  refine ⟨by rw [ht', h.table], by rw [hb', blockIn?_encode hv], h.sited, ?_⟩
  rintro _ ⟨⟩
  exact hb

theorem Anchor.without_block {w' : Copy → List UInt8} (h : Anchor c size site w t bo)
    (ht' : w' .table = w .table) (hb' : w' .block = erasedTable) : Anchor c size site w' t none :=
  ⟨by rw [ht', h.table], by rw [hb', blockIn?_erased], h.sited, nofun⟩

/-! ### Stages -/

/-- Every call of a course finds the windows anchored, and so are they afterwards. -/
theorem Course.anchored (h : Course c size site t bo stages)
    (hw : Anchor c size site (held site cells) t bo) (hs : size = cells.size) :
    Meets (fun _ cells => Anchored c size site (held site cells))
        (stages.flatMap (·.changes site)) cells ∧
      Anchored c size site (held site (afterAll (stages.flatMap (·.changes site)) cells)) := by
  induction h generalizing cells with
  | done t bo => exact ⟨trivial, hw.anchored⟩
  | @table t t' bo stages sited verifies boots rest ih =>
    rw [List.flatMap_cons, afterAll_append]
    -- the backup is written first, and nothing is read off it: the table in use stays the old one
    have aside (bytes : List UInt8) :
        Anchored c size site (Function.update (held site cells) .tableBackup bytes) :=
      Anchor.anchored (hw.congr (Function.update_of_ne (by decide) ..)
        (Function.update_of_ne (by decide) ..))
    obtain ⟨hm, hheld⟩ := meets_save (P := fun _ w => Anchored c size site w) .tableBackup .table hw.sited
      hs t'.length_encode rfl hw.anchored (aside _) (aside _)
      (anchored_of_erased (Function.update_self ..))
    have hnext : Anchor c size site (saved (held site cells) .tableBackup .table t'.encode) t' bo :=
      hw.with_table sited verifies boots (saved_second ..) (saved_other _ (by decide) (by decide) _)
    rw [← hheld] at hnext
    obtain ⟨hm', hafter⟩ := ih hnext (hs.trans (size_afterAll hm.fits).symm)
    exact ⟨hm.append hm', hafter⟩
  | @block t bo b stages verifies boots rest ih =>
    rw [List.flatMap_cons, afterAll_append]
    -- while the first copy is erased no block is in use there, which asks nothing of the table
    have hnone : Anchor c size site (Function.update (held site cells) .block erasedTable) t none :=
      hw.without_block (Function.update_of_ne (by decide) ..) (Function.update_self ..)
    have hput : Anchor c size site (Function.update (held site cells) .block b.encode) t (some b) :=
      hw.with_block verifies boots (Function.update_of_ne (by decide) ..) (Function.update_self ..)
    have aside (bytes : List UInt8) : Anchor c size site (Function.update (Function.update
        (held site cells) .block b.encode) .blockBackup bytes) t (some b) :=
      hput.congr (Function.update_of_ne (by decide) ..) (Function.update_of_ne (by decide) ..)
    obtain ⟨hm, hheld⟩ := meets_save (P := fun _ w => Anchored c size site w) .block .blockBackup hw.sited
      hs b.length_encode rfl hw.anchored hnone.anchored hput.anchored (aside _).anchored
    have hnext : Anchor c size site (saved (held site cells) .block .blockBackup b.encode) t (some b) :=
      aside _
    rw [← hheld] at hnext
    obtain ⟨hm', hafter⟩ := ih hnext (hs.trans (size_afterAll hm.fits).symm)
    exact ⟨hm.append hm', hafter⟩
  | @contents t bo e changes stages listed mutable within rest ih =>
    rw [List.flatMap_cons, afterAll_append]
    obtain ⟨hm, hheld⟩ := meets_slot (P := fun _ w => Anchored c size site w) hw.sited hs listed mutable
      within fun _ => hw.anchored
    rw [← hheld] at hw
    obtain ⟨hm', hafter⟩ := ih hw (hs.trans (size_afterAll hm.fits).symm)
    exact ⟨hm.append hm', hafter⟩

theorem Plans.anchored (hc : Compact c) (hs : size = cells.size) (ht : site .table = c.tableOffsets.1)
    (ha : Anchored c size site (held site cells)) (h : Plans c cells op changes r) :
    Meets (fun _ cells => Anchored c size site (held site cells)) changes cells ∧
      Anchored c size site (held site (afterAll changes cells)) := by
  rcases h.staged hc hs ht ha with ⟨rfl, -⟩ | ⟨t, stages, htable, hcourse, rfl, -⟩
  · exact ⟨trivial, ha⟩
  · exact hcourse.anchored (ha.anchor htable) hs

/-! ### Runs -/

/-- The device has the size, and each call found the windows anchored, as they are now. -/
structure AnchoredFlash (c : Session ρ) (size : ℕ) (site : Copy → UInt64) (f : ScheduledFlash) :
    Prop where
  large : size = f.device.cells.size
  now : Anchored c size site (held site f.device.cells)
  calls : ∀ call ∈ f.calls, Anchored c size site (held site call.1)

theorem perform_anchored (hc : Compact c) (ht : site .table = c.tableOffsets.1) (op : SlotOperation)
    {s : SessionState ρ ScheduledFlash} (h : AnchoredFlash c size site s.flash) :
    ∃ r s', Ends (c.perform op) s r s' ∧ AnchoredFlash c size site s'.flash := by
  obtain ⟨changes, r, t, b, hperf, hplan⟩ := perform_follows c s op
  obtain ⟨r', s', hends, hflash, -⟩ := hperf.ends
  obtain ⟨hm, hafter⟩ := hplan.anchored hc h.large ht h.now
  obtain ⟨r₁, f', hplay, hsize, hcalls, hend⟩ := hm.playAll
  rw [hplay] at hflash
  refine ⟨r', s', hends, ?_⟩
  rw [hflash]
  refine ⟨h.large.trans hsize.symm, ?_, fun call hcall => ?_⟩
  · rcases hend with hall | ⟨change, -, hfound⟩
    · rw [hall]
      exact hafter
    · exact hfound
  · rcases hcalls call hcall with hold | hfound
    · exact h.calls call hold
    · exact hfound

theorem performAll_anchored (hc : Compact c) (ht : site .table = c.tableOffsets.1)
    (ops : List SlotOperation) {s : SessionState ρ ScheduledFlash}
    (h : AnchoredFlash c size site s.flash) :
    ∃ s', Returns (c.performAll ops) s () s' ∧ AnchoredFlash c size site s'.flash := by
  induction ops generalizing s with
  | nil => exact ⟨s, Returns.pure () s, h⟩
  | cons op ops ih =>
    obtain ⟨r, s₁, hends, h₁⟩ := perform_anchored hc ht op h
    obtain ⟨s', hrest, h'⟩ := ih h₁
    exact ⟨s', performAll_cons hends hrest, h'⟩

/-- If both stored tables can be used, each pointer is the offset of an entry. -/
def Refers (c : Session ρ) (cells : ByteArray) : Prop :=
  ∀ t b, c.storedTable? cells = some t → c.storedBlock? cells t = some b →
    ∀ p ∈ b.priorities, ∃ e ∈ t.listed, e.offset = p

theorem Anchored.refers (h : Anchored c size site (held site cells))
    (ht : site .table = c.tableOffsets.1) : Refers c cells := by
  intro t b htable hblock p hp
  rw [storedTable?_eq ht] at htable
  obtain ⟨hsited, hboots⟩ := h t htable
  rw [storedBlock?_eq hsited.block] at hblock
  obtain ⟨e, he, ho, -⟩ := hboots b hblock p hp
  exact ⟨e, he, ho⟩

/-- From a good partition table that lists the pointers of the stored block, no call of any run finds a
pointer without its entry, and none is left, whichever calls fail. -/
theorem performAll_refers (c : Session ρ) (hc : Compact c) (ops : List SlotOperation)
    (s : SessionState ρ ScheduledFlash) (t : PartitionTable) (b : PointerBlock)
    (ht : c.storedTable? s.flash.device.cells = some t)
    (hb : c.storedBlock? s.flash.device.cells t = some b)
    (hd : Directory c s.flash.device.cells.size t) (hboots : Bootable t b)
    (hfresh : s.flash.calls = []) : ∃ s', Returns (c.performAll ops) s () s' ∧
      (∀ call ∈ s'.flash.calls, Refers c call.1) ∧ Refers c s'.flash.device.cells := by
  obtain ⟨site, hsited⟩ := hd.sited
  have ha := (Anchor.of_stored ht hb hsited hboots).anchored
  obtain ⟨s', hrun, h'⟩ := performAll_anchored hc hsited.table ops ⟨rfl, ha, by simp [hfresh]⟩
  exact ⟨s', hrun, fun call hcall => (h'.calls call hcall).refers hsited.table, h'.now.refers hsited.table⟩

theorem bootable_plainFlash : Bootable FlashPlan.plain.table FlashPlan.plain.block :=
  (stores_plainFlash.boots _ rfl).bootable

/-- A slot is added, booted, programmed and removed while every third call fails. -/
theorem performAll_refers_unreliable :
    plainSession.storedTable? unreliableState.flash.device.cells = some FlashPlan.plain.table ∧
      plainSession.storedBlock? unreliableState.flash.device.cells FlashPlan.plain.table =
        some FlashPlan.plain.block ∧
      unreliableState.flash.calls = [] ∧
      ∃ s', Returns (plainSession.performAll [.create "APP" 0x120000 0x1000, .enable 6,
          .program .application 6 (Table.word32 Verifier.imageMagic), .delete 6, .delete 6])
            unreliableState () s' ∧
        (∀ call ∈ s'.flash.calls, Refers plainSession call.1) ∧
          Refers plainSession s'.flash.device.cells := by
  refine ⟨stores_plainFlash.table, stores_plainFlash.block, rfl, ?_⟩
  exact performAll_refers plainSession compact_plainSession _ unreliableState _ _ stores_plainFlash.table
    stores_plainFlash.block stores_plainFlash.directory bootable_plainFlash rfl

end RemoteUpdate.Session
