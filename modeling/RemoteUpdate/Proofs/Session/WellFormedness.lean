import RemoteUpdate.Proofs.Flash.Formatting
import RemoteUpdate.Proofs.Session.Invariance

/-!
# Flash stays well-formed

A device formatted with the standard layout is well-formed, and on an emulated device that does not fail
every operation makes all its changes, so that it leaves the device well-formed whether it succeeds or is
refused.
-/

namespace RemoteUpdate.Session

open FlashPlan (Reachable Matches Sound formatChanges fits_formatChanges metadataSize)

variable {ρ : Type} {c : Session ρ} {cells : ByteArray}

/-! ### Formatting -/

/-- The session looks for the tables where the standard layout has them. -/
structure Standard (c : Session ρ) : Prop where
  offsets : c.tableOffsets = (0x100000, 0x108000)
  block : c.layout.blockName = "CPB0"
  backup : c.layout.backupName = "CPB1"

theorem home_of_matches {part : String × UInt64 × UInt32} {p : FlashPlan} {e : PartitionEntry}
    (he : e ∈ p.table.listed) (hm : Matches part e) (hl : part.2.2 = metadataSize) :
    Home p.table part.2.1.toNat e where
  listed := he
  kept := by
    have : PartitionEntry.isProtected { flags := PartitionEntry.reservedFlag } = true := by decide
    rw [← this]
    exact PartitionEntry.isProtected_congr hm.2.2.2
  low := by rw [hm.2.1]
  high := by
    unfold PartitionEntry.top
    rw [hm.2.1, hm.2.2.1, hl]
    have : tableSize ≤ metadataSize.toNat := by decide
    omega

theorem directory_of_sound {p : FlashPlan} {size : ℕ} (hc : Standard c) (h : Sound size p)
    (hall : ∀ part ∈ FlashPlan.standardPartitions, ∃ e ∈ p.table.listed, Matches part e) :
    Directory c size p.table := by
  obtain ⟨e₁, he₁, hm₁⟩ := hall ("SPT0", 0x100000, metadataSize) (by decide)
  obtain ⟨e₂, he₂, hm₂⟩ := hall ("SPT1", 0x108000, metadataSize) (by decide)
  obtain ⟨e₃, he₃, hm₃⟩ := hall ("CPB0", 0x110000, metadataSize) (by decide)
  obtain ⟨e₄, he₄, hm₄⟩ := hall ("CPB1", 0x118000, metadataSize) (by decide)
  refine { h.listing with homes := ⟨0x110000, 0x118000, e₁, e₂, e₃, e₄, ?_⟩ }
  constructor
  · rw [hc.block]
    exact h.placeOf? he₃ hm₃
  · rw [hc.backup]
    exact h.placeOf? he₄ hm₄
  · rw [hc.offsets]
    exact home_of_matches he₁ hm₁ rfl
  · rw [hc.offsets]
    exact home_of_matches he₂ hm₂ rfl
  · exact home_of_matches he₃ hm₃ rfl
  · exact home_of_matches he₄ hm₄ rfl
  · refine List.Nodup.of_map PartitionEntry.offset ?_
    rw [List.map_cons, List.map_cons, List.map_cons, List.map_cons, List.map_nil, hm₁.2.1, hm₂.2.1,
      hm₃.2.1, hm₄.2.1]
    decide

/-- Where formatting puts what. -/
def formatTables (p : FlashPlan) : List (UInt64 × List UInt8) :=
  [(0x100000, p.table.encode), (0x108000, p.table.encode), (0x110000, p.block.encode),
    (0x118000, p.block.encode)]

theorem slice_formatChanges {p : FlashPlan} {cells : ByteArray}
    (hfit : ∀ change ∈ formatChanges p, change.Fits cells) :
    ∀ x ∈ formatTables p,
      Cells.slice (afterAll (formatChanges p) cells) x.1.toNat tableSize = x.2 := by
  have hchanges : formatChanges p =
      (formatTables p).flatMap fun x => replaceChanges x.1 metadataSize.toNat x.2 := by
    simp [formatChanges, formatTables]
  have hlength : ∀ x ∈ formatTables p, x.2.length = tableSize := by
    simp [formatTables, PartitionTable.length_encode, PointerBlock.length_encode]
  intro x hx
  rw [hchanges] at hfit ⊢
  have := slice_flatMap_replaceChanges (fun y hy => ?_) ?_ hfit x hx
  · rwa [hlength x hx] at this
  · rw [hlength y hy]
    decide
  · -- only where the tables are matters
    have hplaces : (formatTables p).map Prod.fst = [0x100000, 0x108000, 0x110000, 0x118000] := rfl
    have hd : ((formatTables p).map Prod.fst).Pairwise fun a b =>
        Cells.Apart a.toNat metadataSize.toNat b.toNat metadataSize.toNat := by
      rw [hplaces]
      decide
    rwa [List.pairwise_map] at hd

/-- What a device holds after formatting with a plan of the standard layout. -/
theorem slice_of_format {φ : Type} [FlashDevice φ] [KeepsCells φ] {p : FlashPlan} {f f' : φ}
    (hp : Reachable (KeepsCells.cells f).size p) (hf : Ends p.format f (.ok ()) f') :
    FlashPlan.standardSize ≤ (KeepsCells.cells f).size ∧
      (KeepsCells.cells f').size = (KeepsCells.cells f).size ∧
      ∀ x ∈ formatTables p, Cells.slice (KeepsCells.cells f') x.1.toNat tableSize = x.2 := by
  have hplay : (playAll (formatChanges p)).outcome f = (.ok (), f') := by
    obtain ⟨hr, hs⟩ := (hp.writes_format (φ := φ) f).unique hf
    rcases ho : (playAll (formatChanges p)).outcome f with ⟨fault | ⟨⟨⟩⟩, g⟩
    · rw [ho] at hr
      cases hr
    · rw [ho] at hs
      rw [← hs]
  obtain ⟨hfit, hcells⟩ := cells_playAll hplay
  refine ⟨hfit (.erase 0x118000 metadataSize.toNat) (by simp [formatChanges, replaceChanges]), ?_, ?_⟩
  · rw [hcells, size_afterAll hfit]
  · rw [hcells]
    exact slice_formatChanges hfit

/-- A device formatted with a plan of the standard layout stores the tables of the plan. -/
theorem stores_of_format {φ : Type} [FlashDevice φ] [KeepsCells φ] {p : FlashPlan} {f f' : φ}
    (hc : Standard c) (hp : Reachable (KeepsCells.cells f).size p)
    (hf : Ends p.format f (.ok ()) f') :
    Stores c (KeepsCells.cells f') p.table (some p.block) ∧
      (KeepsCells.cells f').size = (KeepsCells.cells f).size := by
  obtain ⟨hlarge, hsize, hheld⟩ := slice_of_format hp hf
  obtain ⟨hs, hall⟩ := hp.sound hlarge
  obtain ⟨-, hplace, -⟩ := hp.places
  -- a plan holds an empty block, so nothing is booted yet
  obtain ⟨n, hn⟩ := hs.slots
  have hv : p.table.verifies = true := by simp [PartitionTable.verifies, hs.usable]
  have hvb : p.block.verifies = true := by
    rw [hn]
    simp [PointerBlock.verifies, PointerBlock.defect?_empty]
  refine ⟨⟨?_, ?_, ?_, ?_⟩, hsize⟩
  · -- the table in use
    refine storedTable?_of_encode hv ?_
    rw [hc.offsets]
    exact hheld (0x100000, p.table.encode) (by simp [formatTables])
  · -- the block in use
    refine storedBlock?_of_encode (by rw [hc.block]; exact hplace) hvb ?_
    exact hheld (0x110000, p.block.encode) (by simp [formatTables])
  · -- where its partitions lie
    rw [hsize]
    exact directory_of_sound hc hs hall
  · -- what is booted
    intro b hb
    obtain rfl := Option.some.inj hb
    rw [hn]
    exact boots_empty _ n

theorem wellFormed_of_format {φ : Type} [FlashDevice φ] [KeepsCells φ] {p : FlashPlan} {f f' : φ}
    (hc : Standard c) (hp : Reachable (KeepsCells.cells f).size p)
    (hf : Ends p.format f (.ok ()) f') : WellFormed c (KeepsCells.cells f') :=
  (stores_of_format hc hp hf).1.wellFormed

def formatted (p : FlashPlan) (f : EmulatedFlash) : EmulatedFlash :=
  ((playAll (formatChanges p)).outcome f).2

section Formatted

variable {p : FlashPlan} {f : EmulatedFlash}

theorem cells_formatted (hsize : FlashPlan.standardSize ≤ f.cells.size) (hf : f.failing = false) :
    (playAll (formatChanges p)).outcome f = (.ok (), formatted p f) ∧
      (formatted p f).failing = false ∧ (formatted p f).cells = afterAll (formatChanges p) f.cells := by
  obtain ⟨f', hplay, hf'⟩ := EmulatedFlash.playAll_of_fits (fits_formatChanges p hsize) hf
  have : formatted p f = f' := by
    unfold formatted
    rw [hplay]
  rw [this]
  exact ⟨hplay, hf', (cells_playAll hplay).2⟩

theorem ends_formatted (hp : Reachable f.cells.size p) (hsize : FlashPlan.standardSize ≤ f.cells.size)
    (hf : f.failing = false) :
    Ends p.format f (.ok ()) (formatted p f) ∧ (formatted p f).failing = false := by
  obtain ⟨hplay, hworking, -⟩ := cells_formatted (p := p) hsize hf
  have := hp.writes_format (φ := EmulatedFlash) f
  rw [hplay] at this
  exact ⟨this, hworking⟩

theorem stores_formatted (hc : Standard c) (hp : Reachable f.cells.size p)
    (hsize : FlashPlan.standardSize ≤ f.cells.size) (hf : f.failing = false) :
    Stores c (formatted p f).cells p.table (some p.block) ∧
      (formatted p f).cells.size = f.cells.size := by
  have := stores_of_format (f := f) hc hp (ends_formatted hp hsize hf).1
  exact this

/-- The second copy of the partition table is like the first. -/
theorem slice_second_formatted (hp : Reachable f.cells.size p)
    (hsize : FlashPlan.standardSize ≤ f.cells.size) (hf : f.failing = false) :
    Cells.slice (formatted p f).cells (0x108000 : UInt64).toNat tableSize = p.table.encode := by
  obtain ⟨-, -, hheld⟩ := slice_of_format (f := f) hp (ends_formatted hp hsize hf).1
  exact hheld (0x108000, p.table.encode) (by simp [formatTables])

end Formatted

/-! ### Operations -/

theorem perform_wellFormed (hc : Compact c) (op : SlotOperation) {s : SessionState ρ EmulatedFlash}
    (h : WellFormed c s.flash.cells) (hf : s.flash.failing = false) :
    ∃ r s', Ends (c.perform op) s r s' ∧ WellFormed c s'.flash.cells ∧ s'.flash.failing = false := by
  obtain ⟨changes, r, t, b, hperf, hplan⟩ := perform_follows c s op
  obtain ⟨hguard, husable⟩ := wellFormed_iff.mp h
  obtain ⟨hcare, hkeep⟩ := hplan.careful hc hguard
  obtain ⟨f', hplay, hf'⟩ := EmulatedFlash.playAll_of_fits hcare.fits hf
  have hcells : f'.cells = afterAll changes s.flash.cells := (cells_playAll hplay).2
  obtain ⟨r', s', hends, hflash, -⟩ := hperf.ends
  rw [hplay] at hflash
  refine ⟨r', s', hends, ?_, by rw [hflash]; exact hf'⟩
  rw [hflash, hcells]
  refine wellFormed_iff.mpr ⟨hcare.guarded_after, usable_iff_slotted.mpr ?_⟩
  exact hkeep 0 (Nat.zero_le _) (usable_iff_slotted.mp husable)

theorem performAll_wellFormed (hc : Compact c) (ops : List SlotOperation)
    {s : SessionState ρ EmulatedFlash} (h : WellFormed c s.flash.cells)
    (hf : s.flash.failing = false) : ∃ s', Returns (c.performAll ops) s () s' ∧
      WellFormed c s'.flash.cells ∧ s'.flash.failing = false := by
  induction ops generalizing s with
  | nil => exact ⟨s, Returns.pure () s, h, hf⟩
  | cons op ops ih =>
    obtain ⟨r, s₁, hends, h₁, hf₁⟩ := perform_wellFormed hc op h hf
    obtain ⟨s', hrest, hs'⟩ := ih h₁ hf₁
    exact ⟨s', performAll_cons hends hrest, hs'⟩

/-- Formatting with a plan of the standard layout leaves a device well-formed for a session that looks for the
tables there. Wherever a session looks for them, every operation leaves a well-formed device that does not fail
well-formed, however it ends, and so does every run of operations. -/
theorem wellFormed_format_perform (c : Session ρ) (hc : Compact c) :
    (Standard c → ∀ (p : FlashPlan) (f : EmulatedFlash), Reachable f.cells.size p →
        (∀ f', Ends p.format f (.ok ()) f' → WellFormed c f'.cells) ∧
          (FlashPlan.standardSize ≤ f.cells.size → f.failing = false →
            ∃ f', Ends p.format f (.ok ()) f')) ∧
      (∀ (op : SlotOperation) (s : SessionState ρ EmulatedFlash), WellFormed c s.flash.cells →
        s.flash.failing = false → ∃ r s', Ends (c.perform op) s r s' ∧ WellFormed c s'.flash.cells) ∧
      ∀ (ops : List SlotOperation) (s : SessionState ρ EmulatedFlash), WellFormed c s.flash.cells →
        s.flash.failing = false → ∃ s', Returns (c.performAll ops) s () s' ∧
          WellFormed c s'.flash.cells := by
  refine ⟨fun hs p f hp => ⟨fun f' hf => ?_, fun hsize hf => ?_⟩, fun op s h hf => ?_,
    fun ops s h hf => ?_⟩
  · have := wellFormed_of_format (f := f) hs hp hf
    exact this
  · exact ⟨_, (ends_formatted hp hsize hf).1⟩
  · obtain ⟨r, s', hends, h', -⟩ := perform_wellFormed hc op h hf
    exact ⟨r, s', hends, h'⟩
  · obtain ⟨s', hrun, h', -⟩ := performAll_wellFormed hc ops h hf
    exact ⟨s', hrun, h'⟩

/-! ### A device of the standard layout -/

def plainSession : Session Unit where
  mailbox := {}
  layout := {}
  tableOffsets := (0x100000, 0x108000)

theorem standard_plainSession : Standard plainSession := ⟨rfl, rfl, rfl⟩

theorem compact_plainSession : Compact plainSession := ⟨rfl, rfl⟩

def plainFlash : EmulatedFlash := formatted .plain (.blank 0x140000)

theorem size_blank (n : ℕ) : (EmulatedFlash.blank n).cells.size = n := Cells.size_filled _ n

theorem reachable_plain (n : ℕ) : Reachable n .plain := Reachable.standard FlashPlan.standard_eq

theorem standardSize_le_blank : FlashPlan.standardSize ≤ (EmulatedFlash.blank 0x140000).cells.size := by
  rw [size_blank]
  decide

theorem stores_plainFlash :
    Stores plainSession plainFlash.cells FlashPlan.plain.table (some FlashPlan.plain.block) :=
  (stores_formatted standard_plainSession (reachable_plain _) standardSize_le_blank rfl).1

theorem size_plainFlash : plainFlash.cells.size = 0x140000 :=
  (stores_formatted standard_plainSession (reachable_plain _) standardSize_le_blank rfl).2.trans
    (size_blank _)

theorem wellFormed_plainFlash : WellFormed plainSession plainFlash.cells :=
  stores_plainFlash.wellFormed

theorem failing_plainFlash : plainFlash.failing = false :=
  (ends_formatted (reachable_plain _) standardSize_le_blank rfl).2

/-- The session that takes the second copy of the partition table for the one that counts. -/
def swappedSession : Session Unit :=
  { plainSession with tableOffsets := plainSession.tableOffsets.swap }

theorem compact_swappedSession : Compact swappedSession := ⟨rfl, rfl⟩

theorem directory_swappedSession {size : ℕ} {t : PartitionTable} (h : Directory plainSession size t) :
    Directory swappedSession size t := by
  obtain ⟨block, backup, e₁, e₂, e₃, e₄, hh⟩ := h.homes
  refine { h.toListing with homes := ⟨block, backup, e₂, e₁, e₃, e₄, ?_⟩ }
  exact ⟨hh.blockPlace, hh.backupPlace, hh.second, hh.first, hh.block, hh.backup,
    (List.Perm.swap e₁ e₂ [e₃, e₄]).nodup_iff.mpr hh.distinct⟩

theorem storedBlock?_swappedSession (cells : ByteArray) (t : PartitionTable) :
    swappedSession.storedBlock? cells t = plainSession.storedBlock? cells t := rfl

/-- Both copies are formatted alike. -/
theorem wellFormed_swapped : WellFormed swappedSession plainFlash.cells := by
  have hstores := stores_plainFlash
  have hsecond := slice_second_formatted (reachable_plain _) standardSize_le_blank rfl
  have hverifies : FlashPlan.plain.table.verifies = true :=
    (Option.filter_eq_some_iff.mp hstores.table).2
  have htable : swappedSession.storedTable? plainFlash.cells = some FlashPlan.plain.table := by
    refine storedTable?_of_encode hverifies ?_
    have hplace : swappedSession.tableOffsets.1 = 0x108000 := rfl
    rw [hplace]
    exact hsecond
  have hblock := storedBlock?_swappedSession plainFlash.cells FlashPlan.plain.table
  rw [hstores.block] at hblock
  exact ⟨_, _, htable, hblock, directory_swappedSession hstores.directory, hstores.boots _ rfl⟩

/-- A slot is added, programmed, booted and removed again, and another is added through the second copy of the
partition table. -/
theorem wellFormed_format_perform_plain :
    Ends FlashPlan.plain.format (EmulatedFlash.blank 0x140000) (.ok ()) plainFlash ∧
      WellFormed plainSession plainFlash.cells ∧
      (∃ s', Returns (plainSession.performAll [.create "APP" 0x120000 0x1000, .program .raw 6 [1, 2, 3],
          .enable 6, .delete 6]) { channel := { registers := () }, flash := plainFlash } () s' ∧
        WellFormed plainSession s'.flash.cells) ∧
      ¬ Standard swappedSession ∧ WellFormed swappedSession plainFlash.cells ∧
      ∃ s', Returns (swappedSession.performAll [.create "APP" 0x120000 0x1000, .enable 6])
          { channel := { registers := () }, flash := plainFlash } () s' ∧
        WellFormed swappedSession s'.flash.cells := by
  obtain ⟨hformat, -, hrun⟩ := wellFormed_format_perform plainSession compact_plainSession
  obtain ⟨hends, hf⟩ := ends_formatted (reachable_plain _) standardSize_le_blank rfl
  have hwell := (hformat standard_plainSession _ _ (reachable_plain _)).1 _ hends
  obtain ⟨-, -, hswapped⟩ := wellFormed_format_perform swappedSession compact_swappedSession
  have hother : ¬ Standard swappedSession := fun h =>
    absurd (congrArg Prod.fst h.offsets : (0x108000 : UInt64) = 0x100000) (by decide)
  exact ⟨hends, hwell, hrun _ _ hwell hf, hother, wellFormed_swapped, hswapped _ _ wellFormed_swapped hf⟩

end RemoteUpdate.Session
