import RemoteUpdate.Proofs.Flash.Formatting
import RemoteUpdate.Proofs.Session.Integrity

/-!
# Where formatting puts the tables

A plan may be put together from nothing, with partitions of any size. Formatting erases the same space at each
of the places where a table goes, whatever the partition there is: what lies behind a short partition is erased
with it, be it a table that has just been written. Where every space stays in its partition, the tables are all
there and nothing outside of the four partitions changes.
-/

namespace RemoteUpdate.FlashPlan

open Session (placeOf? replaceChanges tableIn? blockIn? erasedTable)

/-- The plans that are put together from nothing. -/
inductive Built : FlashPlan → Prop
  | empty : Built {}
  | addPartition {p p' : FlashPlan} {i : ℕ} {name : String} {offset : UInt64} {length flags : UInt32}
      (before : Built p) (added : p.addPartition name offset length flags = .ok (i, p')) : Built p'
  | withSlots {p : FlashPlan} (slots : ℕ) (before : Built p) : Built (p.withSlots slots)
  | withPointers {p p' : FlashPlan} {pointers : List UInt64} (before : Built p)
      (replaced : p.withPointers pointers = .ok p') : Built p'
  | moveTables {p : FlashPlan} (offsets : UInt64 × UInt64) (before : Built p) :
      Built { p with tableOffsets := offsets }

/-- What holds of every plan that is put together: names and ranges of partitions do not repeat, and both tables
can be used. -/
structure Proper (p : FlashPlan) : Prop where
  tidy : Tidy p.table.listed
  table : p.table.defect? = none
  block : p.block.defect? = none

variable {p p' : FlashPlan} {s₁ s₂ b₁ b₂ : PartitionEntry} {found : ByteArray}

theorem Built.proper (h : Built p) : p.Proper := by
  induction h with
  | empty =>
    have hlisted : ({} : FlashPlan).table.listed = [] := rfl
    exact ⟨hlisted ▸ ⟨by simp, by simp⟩, by decide, PointerBlock.defect?_empty _⟩
  | addPartition before added ih =>
    obtain ⟨e, t, made, fresh, apart, pushed, rfl⟩ := addPartition_eq_ok added
    obtain ⟨-, hlisted, hdefect⟩ := PartitionTable.push_eq_ok pushed
    refine ⟨?_, hdefect ih.table, ih.block⟩
    show Tidy t.listed
    rw [hlisted]
    exact ih.tidy.insert made fresh apart
  | withSlots slots before ih => exact ⟨ih.tidy, ih.table, PointerBlock.defect?_empty slots⟩
  | withPointers before replaced ih =>
    unfold FlashPlan.withPointers at replaced
    split at replaced
    · cases replaced
    next =>
      obtain rfl := Except.ok.inj replaced
      exact ⟨ih.tidy, ih.table, PointerBlock.defect?_withSlots.trans ih.block⟩
  | moveTables offsets before ih => exact ⟨ih.tidy, ih.table, ih.block⟩

/-! ### Partitions for the tables -/

/-- A partition with room for a table at an address. -/
structure Seats (t : PartitionTable) (a : ℕ) (e : PartitionEntry) : Prop where
  listed : e ∈ t.listed
  low : e.offset.toNat ≤ a
  high : a + tableSize ≤ e.top

/-- The two copies of the partition table lie in two partitions, and the two copies of the pointer block at the
start of the partitions that are meant for them. -/
structure Seated (p : FlashPlan) (s₁ s₂ b₁ b₂ : PartitionEntry) : Prop where
  first : Seats p.table p.tableOffsets.1.toNat s₁
  second : Seats p.table p.tableOffsets.2.toNat s₂
  block : Seats p.table b₁.offset.toNat b₁
  backup : Seats p.table b₂.offset.toNat b₂
  different : s₁ ≠ s₂
  others : ∀ s ∈ [s₁, s₂], ∀ name ∈ blockNames, s.nameBytes ≠ nameOf name
  blockName : b₁.nameBytes = nameOf "CPB0"
  backupName : b₂.nameBytes = nameOf "CPB1"

/-- The places of the four tables and the partitions they are in, in the order of formatting. -/
def seats (p : FlashPlan) (s₁ s₂ b₁ b₂ : PartitionEntry) : List (ℕ × PartitionEntry) :=
  [(p.tableOffsets.1.toNat, s₁), (p.tableOffsets.2.toNat, s₂), (b₁.offset.toNat, b₁), (b₂.offset.toNat, b₂)]

namespace Seated

theorem seats (h : p.Seated s₁ s₂ b₁ b₂) : ∀ x ∈ p.seats s₁ s₂ b₁ b₂, Seats p.table x.1 x.2 := by
  simp only [FlashPlan.seats, List.forall_mem_cons, List.not_mem_nil, false_implies, implies_true, and_true]
  exact ⟨h.first, h.second, h.block, h.backup⟩

theorem pairwise_ne (h : p.Seated s₁ s₂ b₁ b₂) : [s₁, s₂, b₁, b₂].Pairwise (· ≠ ·) := by
  have hnames : nameOf "CPB0" ≠ nameOf "CPB1" := by decide
  have hne {s b : PartitionEntry} {name : String} (hs : s ∈ [s₁, s₂]) (hname : name ∈ blockNames)
      (hb : b.nameBytes = nameOf name) : s ≠ b := fun heq => h.others s hs name hname (heq ▸ hb)
  simp only [List.pairwise_cons, List.forall_mem_cons, List.not_mem_nil, false_implies, implies_true,
    and_true, List.Pairwise.nil]
  refine ⟨⟨h.different, ?_, ?_⟩, ⟨?_, ?_⟩, fun heq => hnames ?_⟩
  · exact hne (by simp) (by decide) h.blockName
  · exact hne (by simp) (by decide) h.backupName
  · exact hne (by simp) (by decide) h.blockName
  · exact hne (by simp) (by decide) h.backupName
  · rw [← h.blockName, ← h.backupName, heq]

theorem placements (h : p.Seated s₁ s₂ b₁ b₂) (hp : p.Proper) : p.placements =
    [(p.tableOffsets.1, p.table.encode), (p.tableOffsets.2, p.table.encode), (b₁.offset, p.block.encode),
      (b₂.offset, p.block.encode)] := by
  have hplace {b : PartitionEntry} {name : String} (hb : b ∈ p.table.listed)
      (hname : b.nameBytes = nameOf name) : placeOf? p.table name = some b.offset := by
    unfold Session.placeOf?
    rw [PartitionTable.find?_isNamed hp.tidy.names hb hname, Option.map_some]
  unfold FlashPlan.placements
  rw [blockNames, List.filterMap_cons_some (hplace h.block.listed h.blockName),
    List.filterMap_cons_some (hplace h.backup.listed h.backupName), List.filterMap_nil]
  rfl

end Seated

/-! ### What is written -/

/-- The changes that put tables in their spaces, one after the other. -/
def placeAll (l : List (UInt64 × List UInt8)) : List FlashChange :=
  l.flatMap fun x => replaceChanges x.1 metadataSize.toNat x.2

section Places

variable {l before after : List (UInt64 × List UInt8)} {x : UInt64 × List UInt8}

theorem length_le_space (hx : x.2.length = tableSize) : x.2.length ≤ metadataSize.toNat := by
  rw [hx]
  decide

/-- The changes are within the device if the spaces are. -/
theorem fits_placeAll (hl : ∀ x ∈ l, x.2.length = tableSize) :
    (∀ change ∈ placeAll l, change.Fits found) ↔ ∀ x ∈ l, x.1.toNat + metadataSize.toNat ≤ found.size := by
  constructor
  · intro h x hx
    exact h (.erase x.1.toNat metadataSize.toNat) (List.mem_flatMap.mpr ⟨x, hx, List.mem_cons_self⟩)
  · intro h change hchange
    obtain ⟨x, hx, hchange⟩ := List.mem_flatMap.mp hchange
    exact (Session.inside_replaceChanges (length_le_space (hl x hx)) change hchange).2.trans (h x hx)

theorem placeAll_apart {a n : ℕ} (hl : ∀ x ∈ l, x.2.length = tableSize)
    (hd : ∀ x ∈ l, Cells.Apart x.1.toNat metadataSize.toNat a n) :
    ∀ change ∈ placeAll l, Cells.Apart change.address change.length a n := by
  intro change hchange
  obtain ⟨x, hx, hchange⟩ := List.mem_flatMap.mp hchange
  exact Session.replaceChanges_apart (length_le_space (hl x hx)) (hd x hx) change hchange

/-- A table is there in the end unless a later space reaches into it. -/
theorem slice_placeAll (before : List (UInt64 × List UInt8)) (hsplit : l = before ++ x :: after)
    (hl : ∀ x ∈ l, x.2.length = tableSize) (hfit : ∀ change ∈ placeAll l, change.Fits found)
    (hd : ∀ y ∈ after, Cells.Apart y.1.toNat metadataSize.toNat x.1.toNat tableSize) :
    Cells.slice (afterAll (placeAll l) found) x.1.toNat tableSize = x.2 := by
  subst hsplit
  have hx : x.2.length = tableSize := hl x (by simp)
  have hafter : ∀ y ∈ after, y.2.length = tableSize := fun y hy => hl y (by simp [hy])
  have hchanges : placeAll (before ++ x :: after) =
      placeAll before ++ (replaceChanges x.1 metadataSize.toNat x.2 ++ placeAll after) := by
    unfold placeAll
    rw [List.flatMap_append, List.flatMap_cons]
  rw [hchanges] at hfit ⊢
  obtain ⟨hfirst, hthen⟩ := List.forall_mem_append.mp hfit
  rw [afterAll_append, ← hx]
  refine Session.slice_replaceChanges _ (fun change hc => (hthen change hc).afterAll hfirst) ?_
  rw [hx]
  exact placeAll_apart hafter hd

/-- Behind the table that is written last its space is erased. -/
theorem slice_placeAll_erased {k n : ℕ} (before : List (UInt64 × List UInt8)) (hsplit : l = before ++ [x])
    (hl : ∀ x ∈ l, x.2.length = tableSize) (hfit : ∀ change ∈ placeAll l, change.Fits found)
    (hk : tableSize ≤ k) (hn : k + n ≤ metadataSize.toNat) :
    Cells.slice (afterAll (placeAll l) found) (x.1.toNat + k) n = List.replicate n Cells.erasedByte := by
  subst hsplit
  have hx : x.2.length = tableSize := hl x (by simp)
  have hchanges : placeAll (before ++ [x]) = (placeAll before ++
      [.erase x.1.toNat metadataSize.toNat]) ++ [.write x.1.toNat x.2] := by
    unfold placeAll
    rw [List.flatMap_append, List.flatMap_singleton, List.append_assoc]
    rfl
  rw [hchanges] at hfit ⊢
  obtain ⟨hmost, hwrite⟩ := List.forall_mem_append.mp hfit
  obtain ⟨hfirst, herase⟩ := List.forall_mem_append.mp hmost
  have hspace : Cells.slice (FlashChange.on (.erase x.1.toNat metadataSize.toNat)
      (afterAll (placeAll before) found)) x.1.toNat metadataSize.toNat =
        List.replicate metadataSize.toNat Cells.erasedByte :=
    FlashChange.slice_on ((herase _ (List.mem_singleton_self _)).afterAll hfirst)
  -- no table is placed after this one, and its own bytes end before the space asked about
  rw [afterAll_append, slice_afterAll_apart (fun change hc => (hwrite change hc).afterAll hmost) ?_,
    afterAll_append]
  · have hpart := congrArg (fun bytes => (bytes.drop k).take n) hspace
    rw [Cells.drop_slice, Cells.take_slice _ _ _ (by omega), List.drop_replicate, List.take_replicate,
      Nat.min_eq_left (by omega)] at hpart
    exact hpart
  · intro change hc
    rw [List.mem_singleton.mp hc]
    show Cells.Apart x.1.toNat x.2.length (x.1.toNat + k) n
    unfold Cells.Apart
    omega

end Places

/-- What a device with these cells before holds after formatting, whatever the sizes of the partitions are. -/
structure Written (p : FlashPlan) (s₁ s₂ b₁ b₂ : PartitionEntry) (before after : ByteArray) : Prop where
  size : after.size = before.size
  /-- What lies outside of the four spaces is left alone. -/
  untouched : ∀ a n, (∀ x ∈ p.seats s₁ s₂ b₁ b₂, Cells.Apart x.1 metadataSize.toNat a n) →
    Cells.slice after a n = Cells.slice before a n
  /-- Each table is there, unless the space of a later one reaches into it. -/
  first : (∀ place ∈ [p.tableOffsets.2, b₁.offset, b₂.offset],
      Cells.Apart place.toNat metadataSize.toNat p.tableOffsets.1.toNat tableSize) →
    tableIn? (Cells.slice after p.tableOffsets.1.toNat tableSize) = some p.table
  second : (∀ place ∈ [b₁.offset, b₂.offset],
      Cells.Apart place.toNat metadataSize.toNat p.tableOffsets.2.toNat tableSize) →
    tableIn? (Cells.slice after p.tableOffsets.2.toNat tableSize) = some p.table
  block : Cells.Apart b₂.offset.toNat metadataSize.toNat b₁.offset.toNat tableSize →
    blockIn? (Cells.slice after b₁.offset.toNat tableSize) = some p.block
  backup : blockIn? (Cells.slice after b₂.offset.toNat tableSize) = some p.block
  /-- Behind the last table its space is erased, whatever was there. -/
  erased : ∀ k n, tableSize ≤ k → k + n ≤ metadataSize.toNat →
    Cells.slice after (b₂.offset.toNat + k) n = List.replicate n Cells.erasedByte

/-- All four tables are there. -/
structure Formatted (p : FlashPlan) (b₁ b₂ : PartitionEntry) (cells : ByteArray) : Prop where
  first : tableIn? (Cells.slice cells p.tableOffsets.1.toNat tableSize) = some p.table
  second : tableIn? (Cells.slice cells p.tableOffsets.2.toNat tableSize) = some p.table
  block : blockIn? (Cells.slice cells b₁.offset.toNat tableSize) = some p.block
  backup : blockIn? (Cells.slice cells b₂.offset.toNat tableSize) = some p.block

theorem length_placements (p : FlashPlan) : ∀ x ∈ p.placements, x.2.length = tableSize := by
  intro x hx
  rcases List.mem_append.mp hx with hx | hx
  · simp only [List.mem_cons, List.not_mem_nil, or_false] at hx
    rcases hx with rfl | rfl <;> exact p.table.length_encode
  · obtain ⟨place, -, rfl⟩ := List.mem_map.mp hx
    exact p.block.length_encode

/-- Changes that are all made to a device leave what formatting is to leave. -/
theorem Seated.written (h : p.Seated s₁ s₂ b₁ b₂) (hp : p.Proper)
    (hfit : ∀ change ∈ placeAll p.placements, change.Fits found) :
    p.Written s₁ s₂ b₁ b₂ found (afterAll (placeAll p.placements) found) := by
  have hlength := p.length_placements
  have hplaces := h.placements hp
  have htable : tableIn? p.table.encode = some p.table :=
    Session.tableIn?_encode (Option.isNone_iff_eq_none.mpr hp.table)
  have hblock : blockIn? p.block.encode = some p.block :=
    Session.blockIn?_encode (Option.isNone_iff_eq_none.mpr hp.block)
  refine ⟨size_afterAll hfit, fun a n hd => ?_, fun hd => ?_, fun hd => ?_, fun hd => ?_, ?_,
    fun k n hk hn => ?_⟩
  · refine slice_afterAll_apart hfit (placeAll_apart hlength ?_)
    rw [hplaces]
    simpa [FlashPlan.seats] using hd
  · have hslice := slice_placeAll [] hplaces hlength hfit (by simpa using hd)
    rw [hslice, htable]
  · have hslice := slice_placeAll [_] hplaces hlength hfit (by simpa using hd)
    rw [hslice, htable]
  · have hslice := slice_placeAll [_, _] hplaces hlength hfit (by simpa using hd)
    rw [hslice, hblock]
  · have hslice := slice_placeAll [_, _, _] hplaces hlength hfit nofun
    rw [hslice, hblock]
  · exact slice_placeAll_erased (x := (b₂.offset, p.block.encode)) [_, _, _] hplaces hlength hfit hk hn

/-- Where each space stays in its partition, the tables are all there, and what lies outside of the four
partitions is left alone. -/
theorem Seated.formatted {after : ByteArray} (h : p.Seated s₁ s₂ b₁ b₂) (hp : p.Proper)
    (hw : p.Written s₁ s₂ b₁ b₂ found after)
    (hspace : ∀ x ∈ p.seats s₁ s₂ b₁ b₂, x.1 + metadataSize.toNat ≤ x.2.top) :
    p.Formatted b₁ b₂ after ∧
      ∀ a n, (∀ e ∈ [s₁, s₂, b₁, b₂], Cells.Apart e.offset.toNat e.length.toNat a n) →
        Cells.slice after a n = Cells.slice found a n := by
  have hseats := h.seats
  have hapart : [s₁, s₂, b₁, b₂].Pairwise PartitionEntry.Apart := by
    refine h.pairwise_ne.imp_of_mem fun {e f} he hf hne => ?_
    have hlisted : ∀ e ∈ [s₁, s₂, b₁, b₂], e ∈ p.table.listed := by
      simpa using ⟨h.first.listed, h.second.listed, h.block.listed, h.backup.listed⟩
    exact hp.tidy.apart.forall (hlisted e he) (hlisted f hf) hne
  have hsize : tableSize ≤ metadataSize.toNat := by decide
  -- a space that stays in its partition is apart from a table in another one
  simp only [FlashPlan.seats, List.forall_mem_cons, List.not_mem_nil, false_implies, implies_true, and_true]
    at hseats hspace
  simp only [List.pairwise_cons, List.forall_mem_cons, List.not_mem_nil, false_implies, implies_true,
    and_true, List.Pairwise.nil, PartitionEntry.Apart, Cells.Apart] at hapart
  obtain ⟨⟨_, hl₁, _⟩, ⟨_, hl₂, _⟩, ⟨_, hl₃, _⟩, ⟨_, hl₄, _⟩⟩ := hseats
  unfold PartitionEntry.top at hspace
  refine ⟨⟨hw.first ?_, hw.second ?_, hw.block ?_, hw.backup⟩, fun a n hd => hw.untouched a n ?_⟩
  · simp only [List.forall_mem_cons, List.not_mem_nil, false_implies, implies_true, and_true, Cells.Apart]
    omega
  · simp only [List.forall_mem_cons, List.not_mem_nil, false_implies, implies_true, and_true, Cells.Apart]
    omega
  · unfold Cells.Apart
    omega
  · simp only [FlashPlan.seats, List.forall_mem_cons, List.not_mem_nil, false_implies, implies_true, and_true,
      Cells.Apart] at hd ⊢
    omega

/-! ### Formatting -/

section Formatting

variable {φ : Type} [FlashDevice φ] [KeepsCells φ] {f : φ}

/-- The device makes all changes that are within it. -/
def Faultless (f : φ) : Prop :=
  ∀ changes, (∀ change ∈ changes, change.Fits (cells f)) →
    ∃ g, (playAll changes).outcome f = (.ok (), g)

/-- So does the emulated device, unless it is made to fail. -/
theorem faultless_of_working {f : EmulatedFlash} (h : f.failing = false) : Faultless f := by
  intro changes hfit
  obtain ⟨g, hplay, -⟩ := EmulatedFlash.playAll_of_fits hfit h
  exact ⟨g, hplay⟩

/-- A device without faults is formatted if the spaces of the tables are in it. -/
theorem Seated.format_written (h : p.Seated s₁ s₂ b₁ b₂) (hp : p.Proper) (hf : Faultless f) :
    ∃ r g, Ends p.format f r g ∧
      (r = .ok () ↔ ∀ x ∈ p.seats s₁ s₂ b₁ b₂, x.1 + metadataSize.toNat ≤ (cells f).size) ∧
      (r = .ok () → p.Written s₁ s₂ b₁ b₂ (cells f) (cells g)) := by
  have hends := p.writes_format (φ := φ) f
  change Ends _ f (((playAll (placeAll p.placements)).outcome f).1.mapError UpdateError.flash)
    ((playAll (placeAll p.placements)).outcome f).2 at hends
  have hfits : (∀ change ∈ placeAll p.placements, change.Fits (cells f)) ↔
      ∀ x ∈ p.seats s₁ s₂ b₁ b₂, x.1 + metadataSize.toNat ≤ (cells f).size := by
    rw [fits_placeAll p.length_placements, h.placements hp]
    simp [FlashPlan.seats]
  rcases hplay : (playAll (placeAll p.placements)).outcome f with ⟨fault | ⟨⟨⟩⟩, g⟩
  · rw [hplay] at hends
    refine ⟨_, g, hends, ⟨nofun, fun hspaces => ?_⟩, nofun⟩
    obtain ⟨g', hplay'⟩ := hf _ (hfits.mpr hspaces)
    rw [hplay] at hplay'
    cases hplay'
  · rw [hplay] at hends
    obtain ⟨hmade, hcells⟩ := cells_playAll hplay
    refine ⟨_, g, hends, ⟨fun _ => hfits.mp hmade, fun _ => rfl⟩, fun _ => ?_⟩
    rw [hcells]
    exact h.written hp hmade

/-- **Formatting fills its spaces**: a plan whose tables have four partitions of their own is written to a device
without faults if the spaces of the tables are in the device. Outside of the spaces nothing changes, and each
table is there unless the space of a later one reaches into it. Where each space stays in its partition, all
four tables are there and nothing outside of the four partitions changes. -/
theorem format_fills_spaces (built : Built p) (seated : p.Seated s₁ s₂ b₁ b₂) (faultless : Faultless f)
    (inside : ∀ e ∈ p.table.listed, e.top ≤ (cells f).size) : ∃ r g, Ends p.format f r g ∧
      (r = .ok () ↔ ∀ x ∈ p.seats s₁ s₂ b₁ b₂, x.1 + metadataSize.toNat ≤ (cells f).size) ∧
      (r = .ok () → p.Written s₁ s₂ b₁ b₂ (cells f) (cells g)) ∧
      ((∀ x ∈ p.seats s₁ s₂ b₁ b₂, x.1 + metadataSize.toNat ≤ x.2.top) → r = .ok () ∧
        p.Formatted b₁ b₂ (cells g) ∧
        ∀ a n, (∀ e ∈ [s₁, s₂, b₁, b₂], Cells.Apart e.offset.toNat e.length.toNat a n) →
          Cells.slice (cells g) a n = Cells.slice (cells f) a n) := by
  obtain ⟨r, g, hends, hok, hwritten⟩ := seated.format_written built.proper faultless
  refine ⟨r, g, hends, hok, hwritten, fun hspace => ?_⟩
  have hdone := hok.mpr fun x hx => (hspace x hx).trans (inside x.2 (seated.seats x hx).listed)
  exact ⟨hdone, seated.formatted built.proper (hwritten hdone) hspace⟩

end Formatting

/-! ### Partitions in a row -/

/-- Partitions of one length, one behind the other: those of the pointer blocks, and those of the partition
tables. -/
def rowParts (length : UInt32) : List (String × UInt64) :=
  [("CPB0", 0), ("CPB1", length.toUInt64), ("SPT0", 2 * length.toUInt64), ("SPT1", 3 * length.toUInt64)]

def row (length : UInt32) : Except UpdateError FlashPlan := do
  let p ← (rowParts length).foldlM (fun (p : FlashPlan) s => do
    return (← p.addPartition s.1 s.2 length PartitionEntry.reservedFlag).2) {}
  return { p with tableOffsets := (2 * length.toUInt64, 3 * length.toUInt64) }

/-- A partition of that name, place and length is listed. -/
def Lists (p : FlashPlan) (length : UInt32) (part : String × UInt64) : Prop :=
  ∃ e ∈ p.table.listed, e.nameBytes = nameOf part.1 ∧ e.offset = part.2 ∧ e.length = length

theorem Built.addAll {parts : List (String × UInt64)} {length : UInt32} (h : Built p)
    (made : parts.foldlM (fun (p : FlashPlan) s => do
      return (← p.addPartition s.1 s.2 length PartitionEntry.reservedFlag).2) p = .ok p') :
    Built p' ∧ (∀ part ∈ parts, p'.Lists length part) ∧ (∀ e ∈ p.table.listed, e ∈ p'.table.listed) ∧
      ∀ e ∈ p'.table.listed, e ∈ p.table.listed ∨ e.length = length ∧ e.offset ∈ parts.map (·.2) := by
  induction parts generalizing p with
  | nil =>
    obtain rfl := Except.ok.inj made
    exact ⟨h, nofun, fun _ => id, fun _ => .inl⟩
  | cons part parts ih =>
    rw [List.foldlM_cons] at made
    cases ha : p.addPartition part.1 part.2 length PartitionEntry.reservedFlag with
    | error f =>
      rw [ha] at made
      cases made
    | ok added =>
      rw [ha] at made
      obtain ⟨e, t, hmade, -, -, pushed, hp⟩ := addPartition_eq_ok ha
      obtain ⟨hname, ho, hlen, -⟩ := PartitionEntry.rename_eq_ok hmade
      have hlisted : added.2.table.listed = p.table.listed ++ [e] := by
        rw [hp]
        exact (PartitionTable.push_eq_ok pushed).2.1
      obtain ⟨hbuilt, hall, hkeep, honly⟩ := ih (h.addPartition ha) made
      refine ⟨hbuilt, List.forall_mem_cons.mpr ⟨⟨e, hkeep e (by simp [hlisted]), hname, ho, hlen⟩, hall⟩,
        fun f hf => hkeep f (by simp [hlisted, hf]), fun f hf => ?_⟩
      rcases honly f hf with hold | ⟨hlen', ho'⟩
      · rw [hlisted] at hold
        rcases List.mem_append.mp hold with hold | hnew
        · exact .inl hold
        · rw [List.mem_singleton.mp hnew]
          exact .inr ⟨hlen, by simp [show e.offset = part.2 from ho]⟩
      · exact .inr ⟨hlen', by simp [ho']⟩

theorem row_lists {length : UInt32} (h : row length = .ok p) : Built p ∧
    p.tableOffsets = (2 * length.toUInt64, 3 * length.toUInt64) ∧ (∀ part ∈ rowParts length, p.Lists length part) ∧
    ∀ e ∈ p.table.listed, e.length = length ∧ e.offset ∈ (rowParts length).map (·.2) := by
  unfold row at h
  cases hparts : (rowParts length).foldlM (fun (p : FlashPlan) s => do
    return (← p.addPartition s.1 s.2 length PartitionEntry.reservedFlag).2) {} with
  | error fault =>
    rw [hparts] at h
    cases h
  | ok q =>
    rw [hparts] at h
    obtain rfl := Except.ok.inj h
    obtain ⟨hbuilt, hall, -, honly⟩ := Built.empty.addAll hparts
    exact ⟨.moveTables _ hbuilt, rfl, hall, fun e he => (honly e he).resolve_left List.not_mem_nil⟩

theorem toNat_mul_length {n : UInt64} (hn : n.toNat ≤ 3) (length : UInt32) :
    (n * length.toUInt64).toNat = n.toNat * length.toNat := by
  have hbound := length.toNat_lt
  rw [UInt64.toNat_mul, UInt32.toNat_toUInt64]
  exact Nat.mod_eq_of_lt ((Nat.mul_le_mul_right _ hn).trans_lt (by omega))

theorem row_top {length : UInt32} (h : row length = .ok p) : ∀ e ∈ p.table.listed, e.top ≤ 4 * length.toNat := by
  intro e he
  obtain ⟨-, -, -, honly⟩ := row_lists h
  obtain ⟨hlen, ho⟩ := honly e he
  have htwo := toNat_mul_length (n := 2) (by decide) length
  have hthree := toNat_mul_length (n := 3) (by decide) length
  unfold PartitionEntry.top
  rw [hlen]
  simp only [rowParts, List.map_cons, List.map_nil, List.mem_cons, List.not_mem_nil, or_false] at ho
  rcases ho with ho | ho | ho | ho <;> rw [ho]
  · rw [show UInt64.toNat 0 = 0 from rfl]
    omega
  · rw [UInt32.toNat_toUInt64]
    omega
  · rw [htwo, show UInt64.toNat 2 = 2 from rfl]
    omega
  · rw [hthree, show UInt64.toNat 3 = 3 from rfl]
    omega

theorem row_seated {length : UInt32} (h : row length = .ok p) (hlength : tableSize ≤ length.toNat) :
    Built p ∧ ∃ s₁ s₂ b₁ b₂, p.Seated s₁ s₂ b₁ b₂ ∧
      p.seats s₁ s₂ b₁ b₂ = [(2 * length.toNat, s₁), (3 * length.toNat, s₂), (0, b₁), (length.toNat, b₂)] ∧
      ∀ x ∈ p.seats s₁ s₂ b₁ b₂, x.2.top = x.1 + length.toNat := by
  obtain ⟨hbuilt, hoffsets, hall, -⟩ := row_lists h
  simp only [rowParts, List.forall_mem_cons, List.not_mem_nil, false_implies, implies_true, and_true] at hall
  obtain ⟨⟨b₁, hb₁, hname₁, hplace₁, hlen₁⟩, ⟨b₂, hb₂, hname₂, hplace₂, hlen₂⟩,
    ⟨s₁, hs₁, hname₃, hplace₃, hlen₃⟩, ⟨s₂, hs₂, hname₄, hplace₄, hlen₄⟩⟩ := hall
  have hseat {e : PartitionEntry} {place : UInt64} (he : e ∈ p.table.listed) (ho : e.offset = place)
      (hlen : e.length = length) : Seats p.table place.toNat e := by
    refine ⟨he, Nat.le_of_eq (by rw [ho]), ?_⟩
    unfold PartitionEntry.top
    rw [ho, hlen]
    omega
  have hnames : nameOf "SPT0" ≠ nameOf "SPT1" := by decide
  have hothers : ∀ name ∈ blockNames, nameOf "SPT0" ≠ nameOf name ∧ nameOf "SPT1" ≠ nameOf name := by
    decide
  have htwo := toNat_mul_length (n := 2) (by decide) length
  have hthree := toNat_mul_length (n := 3) (by decide) length
  refine ⟨hbuilt, s₁, s₂, b₁, b₂, ⟨hseat hs₁ (by rw [hplace₃, hoffsets]) hlen₃,
    hseat hs₂ (by rw [hplace₄, hoffsets]) hlen₄, hseat hb₁ rfl hlen₁, hseat hb₂ rfl hlen₂, ?_, ?_,
    hname₁, hname₂⟩, ?_, ?_⟩
  · exact fun heq => hnames (by rw [← hname₃, ← hname₄, heq])
  · intro s hs name hname
    simp only [List.mem_cons, List.not_mem_nil, or_false] at hs
    rcases hs with rfl | rfl
    · exact hname₃ ▸ (hothers name hname).1
    · exact hname₄ ▸ (hothers name hname).2
  · simp [seats, hoffsets, htwo, hthree, hplace₁, hplace₂]
  · simp [seats, hoffsets, PartitionEntry.top, hlen₁, hlen₂, hlen₃, hlen₄, hplace₃, hplace₄]

theorem row_ok (length : UInt32) (h : (row length).toBool = true) : ∃ p, row length = .ok p := by
  cases hrow : row length with
  | ok p => exact ⟨p, rfl⟩
  | error fault =>
    rw [hrow] at h
    cases h

theorem format_fills_spaces_row : ∃ p s₁ s₂ b₁ b₂ g, row 0x8000 = .ok p ∧
    p.seats s₁ s₂ b₁ b₂ = [(0x10000, s₁), (0x18000, s₂), (0, b₁), (0x8000, b₂)] ∧
    Ends p.format (EmulatedFlash.blank 0x20000) (.ok ()) g ∧ p.Formatted b₁ b₂ (cells g) := by
  obtain ⟨p, hrow⟩ := row_ok 0x8000 (by decide +kernel)
  obtain ⟨hbuilt, s₁, s₂, b₁, b₂, hseated, hseats, htops⟩ := row_seated hrow (by decide)
  have hsize : (cells (EmulatedFlash.blank 0x20000)).size = 0x20000 := Cells.size_filled _ _
  obtain ⟨r, g, hends, -, -, hformatted⟩ := format_fills_spaces hbuilt hseated
    (faultless_of_working (f := .blank 0x20000) rfl) (fun e he => (row_top hrow e he).trans (Nat.le_of_eq hsize.symm))
  obtain ⟨rfl, hall, -⟩ := hformatted fun x hx => Nat.le_of_eq (htops x hx).symm
  exact ⟨p, s₁, s₂, b₁, b₂, g, hrow, hseats, hends, hall⟩

/-- With partitions that have just room for a table, the space of the last one reaches over both copies of the
partition table: formatting succeeds, and neither copy is there. -/
theorem format_erases_tables : ∃ p s₁ s₂ b₁ b₂ g, row 0x1000 = .ok p ∧ Built p ∧ p.Seated s₁ s₂ b₁ b₂ ∧
    p.seats s₁ s₂ b₁ b₂ = [(0x2000, s₁), (0x3000, s₂), (0, b₁), (0x1000, b₂)] ∧
    (∀ e ∈ p.table.listed, e.top ≤ (cells (EmulatedFlash.blank 0xb000)).size) ∧
    Ends p.format (EmulatedFlash.blank 0xb000) (.ok ()) g ∧
    tableIn? (Cells.slice (cells g) 0x2000 tableSize) = none ∧
    tableIn? (Cells.slice (cells g) 0x3000 tableSize) = none ∧ ¬ p.Formatted b₁ b₂ (cells g) := by
  obtain ⟨p, hrow⟩ := row_ok 0x1000 (by decide +kernel)
  obtain ⟨hbuilt, s₁, s₂, b₁, b₂, hseated, hseats, -⟩ := row_seated hrow (by decide)
  have hsize : (cells (EmulatedFlash.blank 0xb000)).size = 0xb000 := Cells.size_filled _ _
  have hspaces : ∀ x ∈ p.seats s₁ s₂ b₁ b₂,
      x.1 + metadataSize.toNat ≤ (cells (EmulatedFlash.blank 0xb000)).size := by
    rw [hseats, hsize]
    simp
    decide
  obtain ⟨r, g, hends, hok, hwritten⟩ := hseated.format_written hbuilt.proper
    (faultless_of_working (f := .blank 0xb000) rfl)
  obtain rfl := hok.mpr hspaces
  have hplaces := congrArg (List.map Prod.fst) hseats
  simp only [seats, List.map_cons, List.map_nil, List.cons.injEq, and_true] at hplaces
  obtain ⟨hfirst, -, -, hlast⟩ := hplaces
  -- the last block starts right below the tables, and its erase reaches across both of them
  have herased (k : ℕ) (hk : tableSize ≤ k) (hn : k + tableSize ≤ metadataSize.toNat) :
      tableIn? (Cells.slice (cells g) (0x1000 + k) tableSize) = none := by
    have hslice := (hwritten rfl).erased k tableSize hk hn
    rw [hlast] at hslice
    rw [show (0x1000 : ℕ) = UInt32.toNat 0x1000 from rfl, hslice]
    exact Session.tableIn?_erased
  refine ⟨p, s₁, s₂, b₁, b₂, g, hrow, hbuilt, hseated, hseats, fun e he => ?_, hends,
    herased 0x1000 (by decide) (by decide), herased 0x2000 (by decide) (by decide), fun hformatted => ?_⟩
  · exact (row_top hrow e he).trans (by rw [hsize]; decide)
  · have htable := hformatted.first
    rw [hfirst] at htable
    cases htable.symm.trans (herased 0x1000 (by decide) (by decide))

end RemoteUpdate.FlashPlan
