import RemoteUpdate.Proofs.Session.Footprint
import RemoteUpdate.Proofs.Session.WellFormedness

/-!
# The copies of the tables

A device keeps two copies of the partition table and two of the pointer block, each in a window of its own.
The windows stay where they are as long as the protected entries stay. A change of one window replaces what
that window holds, a change of a slot replaces nothing in any of them, and saving a table replaces both of
its copies, one after the other.
-/

namespace RemoteUpdate.Session

variable {ρ : Type} {c : Session ρ} {cells : ByteArray} {t t' : PartitionTable} {b b' : PointerBlock}
  {e : PartitionEntry} {removed : Option PartitionEntry} {size slot : ℕ} {bytes : List UInt8}

/-! ### Where the copies are -/

/-- The copies that a device keeps of its tables. -/
inductive Copy where
  | table
  | tableBackup
  | block
  | blockBackup
deriving DecidableEq

/-- A good directory, and where the copies are by it. -/
structure Sited (c : Session ρ) (size : ℕ) (t : PartitionTable) (site : Copy → UInt64) : Prop extends
    Directory c size t where
  table : site .table = c.tableOffsets.1
  tableBackup : site .tableBackup = c.tableOffsets.2
  block : placeOf? t c.layout.blockName = some (site .block)
  blockBackup : placeOf? t c.layout.backupName = some (site .blockBackup)

variable {site : Copy → UInt64} {k k' : Copy}

theorem Directory.sited (h : Directory c size t) : ∃ site, Sited c size t site := by
  obtain ⟨block, backup, e₁, e₂, e₃, e₄, hh⟩ := h.homes
  let site : Copy → UInt64
    | .table => c.tableOffsets.1
    | .tableBackup => c.tableOffsets.2
    | .block => block
    | .blockBackup => backup
  exact ⟨site, { h with
    table := rfl, tableBackup := rfl, block := hh.blockPlace, blockBackup := hh.backupPlace }⟩

namespace Sited

/-- Each copy is at home in an entry of its own. -/
theorem home (h : Sited c size t site) :
    ∃ home : Copy → PartitionEntry, (∀ k, Home t (site k).toNat (home k)) ∧ home.Injective := by
  obtain ⟨block, backup, e₁, e₂, e₃, e₄, hh⟩ := h.homes
  obtain ⟨h₁₂, h₁₃, h₁₄, h₂₃, h₂₄, h₃₄⟩ := hh.ne
  have hb := Option.some.inj (h.block.symm.trans hh.blockPlace)
  have hb' := Option.some.inj (h.blockBackup.symm.trans hh.backupPlace)
  let home : Copy → PartitionEntry
    | .table => e₁
    | .tableBackup => e₂
    | .block => e₃
    | .blockBackup => e₄
  refine ⟨home, fun k => ?_, fun k k' hk => ?_⟩
  · cases k with
    | table => exact h.table ▸ hh.first
    | tableBackup => exact h.tableBackup ▸ hh.second
    | block => exact hb ▸ hh.block
    | blockBackup => exact hb' ▸ hh.backup
  · cases k <;> cases k' <;> first
      | rfl
      | exact absurd hk (by assumption)
      | exact absurd hk.symm (by assumption)

theorem window_inside (h : Sited c size t site) (k : Copy) : (site k).toNat + tableSize ≤ size := by
  obtain ⟨home, hhome, -⟩ := h.home
  exact (hhome k).high.trans (h.toListing.inside _ (hhome k).listed)

theorem separate (h : Sited c size t site) (hne : k ≠ k') :
    Cells.Apart (site k).toNat tableSize (site k').toNat tableSize := by
  obtain ⟨home, hhome, hinj⟩ := h.home
  have hd := (hhome k).apart h.toListing (hhome k').listed (hinj.ne hne)
  have hlow := (hhome k').low
  have hhigh := (hhome k').high
  unfold PartitionEntry.top at hhigh
  unfold Cells.Apart at hd ⊢
  omega

theorem clear (h : Sited c size t site) (k : Copy) (he : e ∈ t.listed) (hu : e.isProtected = false) :
    Cells.Apart (site k).toNat tableSize e.offset.toNat e.length.toNat := by
  obtain ⟨home, hhome, -⟩ := h.home
  refine (hhome k).apart h.toListing he ?_
  rintro rfl
  rw [(hhome k).kept] at hu
  cases hu

theorem keep (h : Sited c size t site) (hl : Listing size t'.listed)
    (hk : ∀ e ∈ t.listed, e.isProtected = true → e ∈ t'.listed) : Sited c size t' site := by
  obtain ⟨home, hhome, -⟩ := h.home
  exact { (h.toDirectory.keep hl hk).1 with
    table := h.table
    tableBackup := h.tableBackup
    block := h.toDirectory.placeOf?_keep hl hk h.block (hhome .block)
    blockBackup := h.toDirectory.placeOf?_keep hl hk h.blockBackup (hhome .blockBackup) }

theorem push {name : String} {offset : UInt64} {length : UInt32} (h : Sited c size t site)
    (made : PartitionEntry.make name offset length 0 = .ok e) (fresh : t.findName? name = none)
    (sized : length ≠ 0) (fits : e.top ≤ size) (apart : t.findOverlap offset length = .ok none)
    (pushed : t.push e = .ok (slot, t')) : Sited c size t' site :=
  h.keep (h.toDirectory.push made fresh sized fits apart pushed).1.toListing
    (Succeeds.kept (.push pushed : Succeeds t t' none) nofun)

theorem remove (h : Sited c size t site) (mutable : e.isProtected = false)
    (removed : t.remove slot = .ok (e, t')) : Sited c size t' site :=
  h.keep (h.toDirectory.remove mutable removed).1.toListing
    ((Succeeds.remove removed).kept fun _ he => Option.some.inj he ▸ mutable)

theorem rename {name : String} (h : Sited c size t site) (entry : t.listed[slot]? = some e)
    (mutable : e.isProtected = false) (fresh : ∀ other, t.findName? name = some other → other = slot)
    (edited : t.modifyEntry slot (·.rename name) = .ok t') : Sited c size t' site :=
  h.keep (h.toDirectory.rename entry mutable fresh edited).1.toListing
    (Succeeds.kept (.rename entry mutable edited : Succeeds t t' none) nofun)

end Sited

/-! ### What the windows hold -/

/-- What the window of each copy holds. -/
def held (site : Copy → UInt64) (cells : ByteArray) (k : Copy) : List UInt8 :=
  Cells.slice cells (site k).toNat tableSize

theorem storedTable?_eq (ht : site .table = c.tableOffsets.1) :
    c.storedTable? cells = tableIn? (held site cells .table) := by
  unfold storedTable? tableIn? held
  rw [ht]

theorem storedBlock?_eq (hb : placeOf? t c.layout.blockName = some (site .block)) :
    c.storedBlock? cells t = blockIn? (held site cells .block) := by
  unfold storedBlock? blockIn? held
  rw [hb, Option.bind_some]

/-- The change replaces the window of one copy. -/
theorem held_on (change : FlashChange) (h : Sited c size t site) (hs : size = cells.size)
    (ha : change.address = (site k).toNat) (hl : change.length = tableSize) :
    change.Fits cells ∧ held site (change.on cells) = Function.update (held site cells) k change.bytes := by
  have hfit : change.Fits cells := by
    unfold FlashChange.Fits
    rw [ha, hl, ← hs]
    exact h.window_inside k
  refine ⟨hfit, funext fun k' => ?_⟩
  by_cases hk : k' = k
  · subst hk
    have := FlashChange.slice_on hfit
    rw [ha, hl] at this
    rw [Function.update_self]
    exact this
  · rw [Function.update_of_ne hk]
    refine FlashChange.slice_on_apart hfit ?_
    rw [ha, hl]
    exact h.separate (Ne.symm hk)

/-- A change of a slot replaces nothing in the windows. -/
theorem held_on_slot {change : FlashChange} (h : Sited c size t site) (hs : size = cells.size)
    (he : e ∈ t.listed) (hu : e.isProtected = false) (hw : Within change e) :
    change.Fits cells ∧ held site (change.on cells) = held site cells := by
  have hfit := hw.fits h.toListing he hs
  refine ⟨hfit, funext fun k => FlashChange.slice_on_apart hfit ?_⟩
  have hd := h.clear k he hu
  obtain ⟨hlow, hhigh⟩ := hw
  unfold PartitionEntry.top at hhigh
  unfold Cells.Apart at hd ⊢
  omega

/-! ### Saving both copies -/

/-- The changes that put a table in the window of one copy and then in that of another. -/
def save (site : Copy → UInt64) (k k' : Copy) (bytes : List UInt8) : List FlashChange :=
  replaceChanges (site k) tableSize bytes ++ replaceChanges (site k') tableSize bytes

/-- What both windows hold after a table has been put in them. -/
def saved (w : Copy → List UInt8) (k k' : Copy) (bytes : List UInt8) : Copy → List UInt8 :=
  Function.update (Function.update w k bytes) k' bytes

theorem saved_first (w : Copy → List UInt8) (hne : k ≠ k') (bytes : List UInt8) :
    saved w k k' bytes k = bytes := by
  rw [saved, Function.update_of_ne hne, Function.update_self]

theorem saved_second (w : Copy → List UInt8) (k k' : Copy) (bytes : List UInt8) :
    saved w k k' bytes k' = bytes :=
  Function.update_self ..

theorem saved_other (w : Copy → List UInt8) {j : Copy} (h : j ≠ k) (h' : j ≠ k')
    (bytes : List UInt8) : saved w k k' bytes j = w j := by
  rw [saved, Function.update_of_ne h', Function.update_of_ne h]

theorem tableChanges_eq (hc : Compact c) (h : Sited c size t site) (t' : PartitionTable) :
    c.tableChanges t' = save site .tableBackup .table t'.encode := by
  unfold tableChanges save
  rw [hc.table, h.table, h.tableBackup]

theorem blockChanges_eq (hc : Compact c) (h : Sited c size t site) (b : PointerBlock) :
    c.blockChanges t b = save site .block .blockBackup b.encode := by
  unfold blockChanges blockPlaces save
  rw [h.block, h.blockBackup, hc.block, Option.toList_some, List.flatMap_cons, List.flatMap_singleton]

/-- What holds of the address of each call and of the windows that it finds when one window is erased and
written. -/
theorem meets_replace {P : ℕ → (Copy → List UInt8) → Prop} (h : Sited c size t site) (k : Copy)
    (hs : size = cells.size) (hl : bytes.length = tableSize) (before : P (site k).toNat (held site cells))
    (between : P (site k).toNat (Function.update (held site cells) k erasedTable)) :
    Meets (fun change cells => P change.address (held site cells))
        (replaceChanges (site k) tableSize bytes) cells ∧
      held site (afterAll (replaceChanges (site k) tableSize bytes) cells) =
        Function.update (held site cells) k bytes := by
  obtain ⟨hfit, hheld⟩ := held_on (.erase (site k).toNat tableSize) h hs rfl rfl
  obtain ⟨hfit', hheld'⟩ := held_on (.write (site k).toNat bytes) h
    (hs.trans (FlashChange.size_on hfit).symm) rfl hl
  have hbetween : P (site k).toNat
      (held site ((FlashChange.erase (site k).toNat tableSize).on cells)) := by
    rw [hheld]
    exact between
  refine ⟨⟨before, hfit, hbetween, hfit', trivial⟩, ?_⟩
  show held site ((FlashChange.write (site k).toNat bytes).on _) = _
  rw [hheld', hheld, Function.update_idem]
  rfl

theorem meets_save {P : ℕ → (Copy → List UInt8) → Prop} {w : Copy → List UInt8} (k k' : Copy)
    (h : Sited c size t site) (hs : size = cells.size) (hl : bytes.length = tableSize)
    (hw : held site cells = w) (h₀ : P (site k).toNat w)
    (h₁ : P (site k).toNat (Function.update w k erasedTable))
    (h₂ : P (site k').toNat (Function.update w k bytes))
    (h₃ : P (site k').toNat (Function.update (Function.update w k bytes) k' erasedTable)) :
    Meets (fun change cells => P change.address (held site cells)) (save site k k' bytes) cells ∧
      held site (afterAll (save site k k' bytes) cells) = saved w k k' bytes := by
  subst hw
  obtain ⟨hm, hheld⟩ := meets_replace h k hs hl h₀ h₁
  have hs' := hs.trans (size_afterAll hm.fits).symm
  obtain ⟨hm', hheld'⟩ := meets_replace (P := P) h k' hs' hl (by rwa [hheld]) (by rwa [hheld])
  unfold save
  rw [afterAll_append, hheld', hheld]
  exact ⟨hm.append hm', rfl⟩

/-- Changes of a slot find the windows as they are. -/
theorem meets_slot {P : ℕ → (Copy → List UInt8) → Prop} {changes : List FlashChange}
    (h : Sited c size t site) (hs : size = cells.size) (he : e ∈ t.listed) (hu : e.isProtected = false)
    (hw : ∀ change ∈ changes, Within change e) (hp : ∀ a, P a (held site cells)) :
    Meets (fun change cells => P change.address (held site cells)) changes cells ∧
      held site (afterAll changes cells) = held site cells := by
  induction changes generalizing cells with
  | nil => exact ⟨trivial, rfl⟩
  | cons change changes ih =>
    obtain ⟨hfit, hheld⟩ := held_on_slot h hs he hu (hw change List.mem_cons_self)
    obtain ⟨hm, hheld'⟩ := ih (hs.trans (FlashChange.size_on hfit).symm)
      (fun other ho => hw other (List.mem_cons_of_mem _ ho)) (by rwa [hheld])
    exact ⟨⟨hp _, hfit, hm⟩, hheld'.trans hheld⟩

/-! ### A device of the standard layout with a slot -/

open FlashPlan (Reachable)

def plainSite : Copy → UInt64
  | .table => 0x100000
  | .tableBackup => 0x108000
  | .block => 0x110000
  | .blockBackup => 0x118000

section Formatted

variable {p : FlashPlan} {f : EmulatedFlash} (hp : Reachable f.cells.size p)
  (hsize : FlashPlan.standardSize ≤ f.cells.size) (hf : f.failing = false)
include hp hsize hf

theorem sited_formatted : Sited plainSession (formatted p f).cells.size p.table plainSite := by
  obtain ⟨-, hblock, hbackup⟩ := hp.places
  exact { (stores_formatted standard_plainSession hp hsize hf).1.directory with
    table := rfl, tableBackup := rfl, block := hblock, blockBackup := hbackup }

theorem held_formatted : held plainSite (formatted p f).cells .table = p.table.encode ∧
    held plainSite (formatted p f).cells .tableBackup = p.table.encode ∧
    held plainSite (formatted p f).cells .block = p.block.encode ∧
    held plainSite (formatted p f).cells .blockBackup = p.block.encode := by
  obtain ⟨-, -, hheld⟩ := slice_of_format (f := f) hp (ends_formatted hp hsize hf).1
  simp only [formatTables, List.forall_mem_cons] at hheld
  obtain ⟨h₁, h₂, h₃, h₄, -⟩ := hheld
  exact ⟨h₁, h₂, h₃, h₄⟩

end Formatted

def slotPlan : FlashPlan :=
  ((FlashPlan.plain.addPartition "APP" 0x120000 0x1000 0).toOption.map (·.2)).getD {}

theorem reachable_slotPlan : Reachable 0x140000 slotPlan := by
  have hok : (FlashPlan.plain.addPartition "APP" 0x120000 0x1000 0).toBool = true := by decide +kernel
  cases ha : FlashPlan.plain.addPartition "APP" 0x120000 0x1000 0 with
  | error failure =>
    rw [ha] at hok
    cases hok
  | ok added =>
    have : slotPlan = added.2 := by
      unfold slotPlan
      rw [ha]
      rfl
    rw [this]
    exact .addPartition (reachable_plain _) ha (by decide) (by decide)

def slotFlash : EmulatedFlash :=
  formatted slotPlan (.blank 0x140000)

theorem reachable_blank : Reachable (EmulatedFlash.blank 0x140000).cells.size slotPlan := by
  rw [size_blank]
  exact reachable_slotPlan

theorem stores_slotFlash :
    Stores plainSession slotFlash.cells slotPlan.table (some slotPlan.block) :=
  (stores_formatted standard_plainSession reachable_blank standardSize_le_blank rfl).1

theorem sited_slotFlash : Sited plainSession slotFlash.cells.size slotPlan.table plainSite :=
  sited_formatted reachable_blank standardSize_le_blank rfl

theorem tables_slotFlash :
    held plainSite slotFlash.cells .table = held plainSite slotFlash.cells .tableBackup := by
  obtain ⟨h, h', -⟩ := held_formatted reachable_blank standardSize_le_blank rfl
  exact h.trans h'.symm

theorem blocks_slotFlash :
    held plainSite slotFlash.cells .block = held plainSite slotFlash.cells .blockBackup := by
  obtain ⟨-, -, h, h'⟩ := held_formatted reachable_blank standardSize_le_blank rfl
  exact h.trans h'.symm

theorem failing_slotFlash : slotFlash.failing = false :=
  (ends_formatted reachable_blank standardSize_le_blank rfl).2

theorem open_slotFlash : ∃ e, plainSession.Open slotFlash.cells 6 slotPlan.table slotPlan.block e ∧
    (slotPlan.block.enable e.offset).1 = .ok true := by
  have hentry : slotPlan.table.listed[6]?.map (fun e => (e.offset, e.isProtected)) =
      some (0x120000, false) := by decide +kernel
  have hput : (slotPlan.block.enable 0x120000).1.toOption = some true := by decide +kernel
  obtain ⟨e, he, hpair⟩ := Option.map_eq_some_iff.mp hentry
  obtain ⟨ho, hu⟩ := Prod.mk.inj hpair
  refine ⟨e, ⟨stores_slotFlash.table, stores_slotFlash.block, he, hu⟩, ?_⟩
  rw [ho]
  cases hb : (slotPlan.block.enable 0x120000).1 with
  | error failure =>
    rw [hb] at hput
    cases hput
  | ok placed =>
    rw [hb] at hput
    exact congrArg _ (Option.some.inj hput)

end RemoteUpdate.Session
