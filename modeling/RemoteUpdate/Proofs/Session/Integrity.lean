import RemoteUpdate.Proofs.Session.Directory
import RemoteUpdate.Proofs.Session.Operations
import RemoteUpdate.Proofs.Table.Codec

/-!
# What the operations keep intact

Cells are `Guarded` if the tables in them are good as far as they can be used. A list of changes is
`Careful` if the cells are guarded before and after each of them, each of them is within the device, and
none of them touches an entry that the stored pointer block refers to. Whatever an operation has in mind
is careful, so it does not matter how far it gets.
-/

namespace RemoteUpdate.Session

variable {ρ : Type} {c : Session ρ} {cells : ByteArray} {t t' : PartitionTable} {b b' : PointerBlock}
  {e f : PartitionEntry} {change : FlashChange} {changes rest : List FlashChange} {bo : Option PointerBlock}

/-! ### The invariant -/

/-- The tables are good as far as they can be used. -/
def Guarded (c : Session ρ) (cells : ByteArray) : Prop :=
  ∀ t, c.storedTable? cells = some t →
    Directory c cells.size t ∧ ∀ b, c.storedBlock? cells t = some b → Boots t b

/-- Both tables can be used. -/
def Usable (c : Session ρ) (cells : ByteArray) : Prop :=
  ∃ t b, c.storedTable? cells = some t ∧ c.storedBlock? cells t = some b

/-- Both tables can be used, and the pointer block has at least so many slots. -/
def Slotted (c : Session ρ) (n : ℕ) (cells : ByteArray) : Prop :=
  ∃ t b, c.storedTable? cells = some t ∧ c.storedBlock? cells t = some b ∧ n ≤ b.slotCount.toNat

/-- Both tables can be used and are good. -/
def WellFormed (c : Session ρ) (cells : ByteArray) : Prop :=
  ∃ t b, c.storedTable? cells = some t ∧ c.storedBlock? cells t = some b ∧
    Directory c cells.size t ∧ Boots t b

/-- If both stored tables can be used, the change touches no entry whose offset is one of the pointers. -/
def Spares (c : Session ρ) (cells : ByteArray) (change : FlashChange) : Prop :=
  ∀ t b, c.storedTable? cells = some t → c.storedBlock? cells t = some b →
    ∀ e ∈ t.listed, e.offset ∈ b.priorities →
      Cells.Apart change.address change.length e.offset.toNat e.length.toNat

theorem wellFormed_iff : WellFormed c cells ↔ Guarded c cells ∧ Usable c cells := by
  constructor
  · rintro ⟨t, b, ht, hb, hd, hboots⟩
    refine ⟨?_, t, b, ht, hb⟩
    intro t' ht'
    obtain rfl := Option.some.inj (ht.symm.trans ht')
    refine ⟨hd, ?_⟩
    intro b' hb'
    obtain rfl := Option.some.inj (hb.symm.trans hb')
    exact hboots
  · rintro ⟨hg, t, b, ht, hb⟩
    obtain ⟨hd, hboots⟩ := hg t ht
    exact ⟨t, b, ht, hb, hd, hboots b hb⟩

theorem usable_iff_slotted : Usable c cells ↔ Slotted c 0 cells :=
  ⟨fun ⟨t, b, ht, hb⟩ => ⟨t, b, ht, hb, Nat.zero_le _⟩, fun ⟨t, b, ht, hb, _⟩ => ⟨t, b, ht, hb⟩⟩

/-- Changes that keep the cells guarded and spare the entries that are booted. -/
def Careful (c : Session ρ) : List FlashChange → ByteArray → Prop
  | [], cells => Guarded c cells
  | change :: rest, cells =>
    Guarded c cells ∧ Spares c cells change ∧ change.Fits cells ∧ Careful c rest (change.on cells)

theorem Careful.guarded (h : Careful c changes cells) : Guarded c cells := by
  cases changes with
  | nil => exact h
  | cons change rest => exact h.1

theorem Careful.guarded_after (h : Careful c changes cells) : Guarded c (afterAll changes cells) := by
  induction changes generalizing cells with
  | nil => exact h
  | cons change rest ih => exact ih h.2.2.2

theorem Careful.append (h : Careful c changes cells) (h' : Careful c rest (afterAll changes cells)) :
    Careful c (changes ++ rest) cells := by
  induction changes generalizing cells with
  | nil => exact h'
  | cons change changes ih => exact ⟨h.1, h.2.1, h.2.2.1, ih h.2.2.2 h'⟩

theorem Careful.front {front : List FlashChange} (h : Careful c changes cells)
    (hfront : front <+: changes) : Careful c front cells := by
  induction front generalizing changes cells with
  | nil => exact h.guarded
  | cons change front ih =>
    obtain ⟨rest, rfl⟩ := hfront
    exact ⟨h.1, h.2.1, h.2.2.1, ih h.2.2.2 (List.prefix_append front rest)⟩

theorem Careful.meets (h : Careful c changes cells) :
    Meets (fun change cells => Guarded c cells ∧ Spares c cells change) changes cells := by
  induction changes generalizing cells with
  | nil => trivial
  | cons change rest ih =>
    obtain ⟨hguard, hspares, hfit, hrest⟩ := h
    exact ⟨⟨hguard, hspares⟩, hfit, ih hrest⟩

theorem Careful.fits (h : Careful c changes cells) : ∀ change ∈ changes, change.Fits cells :=
  h.meets.fits

theorem Careful.size_after (h : Careful c changes cells) :
    (afterAll changes cells).size = cells.size :=
  size_afterAll h.fits

/-! ### What is stored -/

/-- The cells store a good table, and a block that boots from it if they store any. -/
structure Stores (c : Session ρ) (cells : ByteArray) (t : PartitionTable) (bo : Option PointerBlock) :
    Prop where
  table : c.storedTable? cells = some t
  block : c.storedBlock? cells t = bo
  directory : Directory c cells.size t
  boots : ∀ b, bo = some b → Boots t b

theorem Stores.guarded (h : Stores c cells t bo) : Guarded c cells := by
  intro t' ht'
  obtain rfl := Option.some.inj (h.table.symm.trans ht')
  exact ⟨h.directory, fun b hb => h.boots b (h.block.symm.trans hb)⟩

theorem Guarded.stores (h : Guarded c cells) (ht : c.storedTable? cells = some t) :
    Stores c cells t (c.storedBlock? cells t) :=
  ⟨ht, rfl, (h t ht).1, (h t ht).2⟩

theorem Stores.slotted {n : ℕ} (h : Stores c cells t (some b)) (hn : n ≤ b.slotCount.toNat) :
    Slotted c n cells := ⟨t, b, h.table, h.block, hn⟩

theorem Stores.slots {n : ℕ} (h : Stores c cells t (some b)) (hn : Slotted c n cells) :
    n ≤ b.slotCount.toNat := by
  obtain ⟨t', b', ht, hb, hn⟩ := hn
  obtain rfl := Option.some.inj (h.table.symm.trans ht)
  obtain rfl := Option.some.inj (h.block.symm.trans hb)
  exact hn

theorem Stores.wellFormed (h : Stores c cells t (some b)) : WellFormed c cells :=
  ⟨t, b, h.table, h.block, h.directory, h.boots b rfl⟩

theorem WellFormed.stores (h : WellFormed c cells) : ∃ t b, Stores c cells t (some b) := by
  obtain ⟨t, b, ht, hb, hd, hboots⟩ := h
  refine ⟨t, b, ht, hb, hd, ?_⟩
  rintro b' ⟨⟩
  exact hboots

/-- The change stays within an entry. -/
def Within (change : FlashChange) (e : PartitionEntry) : Prop :=
  e.offset.toNat ≤ change.address ∧ change.address + change.length ≤ e.top

theorem Within.fits (hw : Within change e) {size : ℕ} (hl : Listing size t.listed) (he : e ∈ t.listed)
    (hs : size = cells.size) : change.Fits cells := by
  have := hl.inside e he
  have := hw.2
  unfold FlashChange.Fits
  omega

theorem Within.apart (hw : Within change e) {size : ℕ} (hl : Listing size t.listed) (he : e ∈ t.listed)
    (hf : f ∈ t.listed) (hne : e ≠ f) :
    Cells.Apart change.address change.length f.offset.toNat f.length.toNat := by
  have hd := hl.apart_of_ne he hf hne
  obtain ⟨hlow, hhigh⟩ := hw
  unfold PartitionEntry.top at hhigh
  unfold PartitionEntry.Apart Cells.Apart at hd
  unfold Cells.Apart
  omega

/-- What is within an entry leaves a table alone that is at home in another one. -/
theorem Within.slice_home (hw : Within change e) {size a : ℕ} (hl : Listing size t.listed)
    (he : e ∈ t.listed) (hs : size = cells.size) (hh : Home t a f) (hne : e ≠ f) :
    Cells.slice (change.on cells) a tableSize = Cells.slice cells a tableSize := by
  refine FlashChange.slice_on_apart (hw.fits hl he hs) ?_
  have hd := hw.apart hl he hh.listed hne
  have hlow := hh.low
  have hhigh := hh.high
  unfold PartitionEntry.top at hhigh
  unfold Cells.Apart at hd ⊢
  omega

/-- A change within an entry that is not booted spares those that are. -/
theorem Stores.spares (h : Stores c cells t bo) (hw : Within change e) (he : e ∈ t.listed)
    (hn : ∀ b, bo = some b → e.offset ∉ b.priorities) : Spares c cells change := by
  intro t' b' ht' hb' f hf hp
  obtain rfl := Option.some.inj (h.table.symm.trans ht')
  have hbo : bo = some b' := h.block.symm.trans hb'
  refine hw.apart h.directory.toListing he hf ?_
  rintro rfl
  exact hn b' hbo hp

theorem Stores.not_booted (h : Stores c cells t bo) (he : e ∈ t.listed) (hk : e.isProtected = true)
    (hb : bo = some b) : e.offset ∉ b.priorities := by
  intro hp
  obtain ⟨f, hf, ho, hu⟩ := (h.boots b hb).bootable _ hp
  obtain rfl := h.directory.eq_of_offset hf he ho
  rw [hk] at hu
  cases hu

/-! ### Reading back -/

theorem storedTable?_congr {other : ByteArray} (h : Cells.slice other c.tableOffsets.1.toNat tableSize =
    Cells.slice cells c.tableOffsets.1.toNat tableSize) :
    c.storedTable? other = c.storedTable? cells := by
  unfold storedTable?
  rw [h]

theorem storedBlock?_congr {other : ByteArray} {place : UInt64}
    (hp : placeOf? t c.layout.blockName = some place)
    (hp' : placeOf? t' c.layout.blockName = some place)
    (h : Cells.slice other place.toNat tableSize = Cells.slice cells place.toNat tableSize) :
    c.storedBlock? other t' = c.storedBlock? cells t := by
  unfold storedBlock?
  rw [hp, hp', Option.bind_some, Option.bind_some, h]

def tableIn? (bytes : List UInt8) : Option PartitionTable :=
  (PartitionTable.decode bytes).toOption.filter (·.verifies)

def blockIn? (bytes : List UInt8) : Option PointerBlock :=
  (PointerBlock.decode bytes).toOption.filter (·.verifies)

theorem tableIn?_eq_some {bytes : List UInt8} (h : tableIn? bytes = some t) :
    PartitionTable.decode bytes = .ok t ∧ t.verifies = true := by
  obtain ⟨hd, hv⟩ := Option.filter_eq_some_iff.mp h
  cases hr : PartitionTable.decode bytes with
  | error e =>
    rw [hr] at hd
    cases hd
  | ok t' =>
    rw [hr] at hd
    exact ⟨congrArg Except.ok (Option.some.inj hd), hv⟩

theorem blockIn?_eq_some {bytes : List UInt8} (h : blockIn? bytes = some b) :
    PointerBlock.decode bytes = .ok b ∧ b.verifies = true := by
  obtain ⟨hd, hv⟩ := Option.filter_eq_some_iff.mp h
  cases hr : PointerBlock.decode bytes with
  | error e =>
    rw [hr] at hd
    cases hd
  | ok b' =>
    rw [hr] at hd
    exact ⟨congrArg Except.ok (Option.some.inj hd), hv⟩

/-- What erased cells hold where a table could be. -/
def erasedTable : List UInt8 :=
  List.replicate tableSize Cells.erasedByte

theorem tableIn?_encode (hv : t.verifies = true) : tableIn? t.encode = some t := by
  unfold tableIn?
  rw [PartitionTable.decode_encode]
  simp [Except.toOption, hv]

theorem blockIn?_encode (hv : b.verifies = true) : blockIn? b.encode = some b := by
  unfold blockIn?
  rw [PointerBlock.decode_encode]
  simp [Except.toOption, hv]

theorem word32At_erased {i : ℕ} (hi : i + 4 ≤ tableSize) :
    Table.word32At erasedTable.toArray i = 0xffffffff := by
  have byte {k : ℕ} (hk : k < tableSize) : erasedTable.toArray.getD k 0 = 0xff := by
    unfold erasedTable
    rw [Array.getD_eq_getD_getElem?, List.getElem?_toArray, List.getElem?_replicate, if_pos hk]
    rfl
  unfold Table.word32At
  rw [byte (by omega), byte (by omega), byte (by omega), byte (by omega)]
  decide

theorem tableIn?_erased : tableIn? erasedTable = none := by
  unfold tableIn? PartitionTable.decode
  rw [if_neg (by simp [erasedTable]), Except.toOption, Option.filter_eq_none_iff]
  intro t ht
  obtain rfl := Option.some.inj ht
  unfold PartitionTable.verifies PartitionTable.defect?
  dsimp only
  rw [word32At_erased (by decide)]
  decide

theorem blockIn?_erased : blockIn? erasedTable = none := by
  unfold blockIn? PointerBlock.decode
  rw [if_neg (by simp [erasedTable]), Except.toOption, Option.filter_eq_none_iff]
  intro b hb
  obtain rfl := Option.some.inj hb
  unfold PointerBlock.verifies PointerBlock.defect?
  dsimp only
  rw [word32At_erased (by decide)]
  decide

theorem storedTable?_of_encode (hv : t.verifies = true)
    (h : Cells.slice cells c.tableOffsets.1.toNat tableSize = t.encode) :
    c.storedTable? cells = some t := by
  rw [← tableIn?_encode hv, ← h]
  rfl

theorem storedBlock?_of_encode {place : UInt64} (hp : placeOf? t c.layout.blockName = some place)
    (hv : b.verifies = true) (h : Cells.slice cells place.toNat tableSize = b.encode) :
    c.storedBlock? cells t = some b := by
  unfold storedBlock?
  rw [hp, Option.bind_some, h]
  exact blockIn?_encode hv

theorem storedTable?_of_erased (h : Cells.slice cells c.tableOffsets.1.toNat tableSize =
    List.replicate tableSize Cells.erasedByte) : c.storedTable? cells = none := by
  unfold storedTable?
  rw [h]
  exact tableIn?_erased

theorem storedBlock?_of_erased {place : UInt64} (hp : placeOf? t c.layout.blockName = some place)
    (h : Cells.slice cells place.toNat tableSize = List.replicate tableSize Cells.erasedByte) :
    c.storedBlock? cells t = none := by
  unfold storedBlock?
  rw [hp, Option.bind_some, h]
  exact blockIn?_erased

/-! ### Changes of one entry -/

section Homes

variable {block backup : UInt64} {e₁ e₂ e₃ e₄ : PartitionEntry}

/-- A change within an entry that is neither booted nor home to a table that counts. -/
theorem Stores.step (h : Stores c cells t bo) (hh : Homes c t block backup e₁ e₂ e₃ e₄)
    (hw : Within change e) (he : e ∈ t.listed) (h₁ : e ≠ e₁) (h₃ : e ≠ e₃)
    (hn : ∀ b, bo = some b → e.offset ∉ b.priorities) :
    Spares c cells change ∧ change.Fits cells ∧ Stores c (change.on cells) t bo := by
  have hfit := hw.fits h.directory.toListing he rfl
  have htable := hw.slice_home h.directory.toListing he rfl hh.first h₁
  have hblock := hw.slice_home h.directory.toListing he rfl hh.block h₃
  refine ⟨h.spares hw he hn, hfit, ?_, ?_, ?_, h.boots⟩
  · rw [storedTable?_congr htable]
    exact h.table
  · rw [storedBlock?_congr hh.blockPlace hh.blockPlace hblock]
    exact h.block
  · rw [FlashChange.size_on hfit]
    exact h.directory

theorem Stores.careful_within (h : Stores c cells t bo) (hh : Homes c t block backup e₁ e₂ e₃ e₄)
    (hw : ∀ change ∈ changes, Within change e) (he : e ∈ t.listed) (h₁ : e ≠ e₁) (h₃ : e ≠ e₃)
    (hn : ∀ b, bo = some b → e.offset ∉ b.priorities) :
    Careful c changes cells ∧ Stores c (afterAll changes cells) t bo := by
  induction changes generalizing cells with
  | nil => exact ⟨h.guarded, h⟩
  | cons change changes ih =>
    obtain ⟨hspares, hfit, hs⟩ := h.step hh (hw change List.mem_cons_self) he h₁ h₃ hn
    obtain ⟨hc, hs⟩ := ih hs fun change hm => hw change (List.mem_cons_of_mem _ hm)
    exact ⟨⟨h.guarded, hspares, hfit, hc⟩, hs⟩

theorem Home.within {place : UInt64} (h : Home t place.toNat e) {bytes : List UInt8}
    (hl : bytes.length = tableSize) :
    ∀ change ∈ replaceChanges place tableSize bytes, Within change e := by
  intro change hm
  obtain ⟨hlow, hhigh⟩ := inside_replaceChanges hl.le change hm
  exact ⟨h.low.trans hlow, hhigh.trans h.high⟩

theorem Homes.ne (hh : Homes c t block backup e₁ e₂ e₃ e₄) :
    e₁ ≠ e₂ ∧ e₁ ≠ e₃ ∧ e₁ ≠ e₄ ∧ e₂ ≠ e₃ ∧ e₂ ≠ e₄ ∧ e₃ ≠ e₄ := by
  have := hh.distinct
  simp only [List.nodup_cons, List.mem_cons, List.not_mem_nil, or_false, not_or] at this
  obtain ⟨⟨h₁₂, h₁₃, h₁₄⟩, ⟨h₂₃, h₂₄⟩, h₃₄, -⟩ := this
  exact ⟨h₁₂, h₁₃, h₁₄, h₂₃, h₂₄, h₃₄⟩

/-- A table that does not count is replaced. -/
theorem Stores.replace_copy (h : Stores c cells t bo) (hh : Homes c t block backup e₁ e₂ e₃ e₄)
    {place : UInt64} {bytes : List UInt8} (hl : bytes.length = tableSize) (he : Home t place.toNat e)
    (h₁ : e ≠ e₁) (h₃ : e ≠ e₃) : Careful c (replaceChanges place tableSize bytes) cells ∧
      Stores c (afterAll (replaceChanges place tableSize bytes) cells) t bo :=
  h.careful_within hh (he.within hl) he.listed h₁ h₃ fun _ hb => h.not_booted he.listed he.kept hb

/-- The partition table that counts is replaced by one that is as good. -/
theorem Stores.replace_table (h : Stores c cells t bo) (hh : Homes c t block backup e₁ e₂ e₃ e₄)
    (hd : Directory c cells.size t') (hv : t'.verifies = true)
    (hp : placeOf? t' c.layout.blockName = placeOf? t c.layout.blockName)
    (hb : ∀ b, bo = some b → Boots t' b) :
    Careful c (replaceChanges c.tableOffsets.1 tableSize t'.encode) cells ∧
      Stores c (afterAll (replaceChanges c.tableOffsets.1 tableSize t'.encode) cells) t' bo := by
  obtain ⟨-, h₁₃, -⟩ := hh.ne
  have hl := h.directory.toListing
  have hw := hh.first.within t'.length_encode
  have hw₁ := hw _ List.mem_cons_self
  have hw₂ := hw _ (List.mem_cons_of_mem _ List.mem_cons_self)
  have hmem := hh.first.listed
  have hfit := hw₁.fits hl hmem rfl
  have hsize := FlashChange.size_on hfit
  -- between the two changes no table is stored there, so nothing is asked of that moment
  have hnone : c.storedTable? ((FlashChange.erase c.tableOffsets.1.toNat tableSize).on cells) = none :=
    storedTable?_of_erased (FlashChange.slice_on hfit)
  have hfit' := hw₂.fits hl hmem hsize.symm
  have hsome : c.storedTable? (afterAll (replaceChanges c.tableOffsets.1 tableSize t'.encode) cells) =
      some t' := by
    refine storedTable?_of_encode hv ?_
    have := FlashChange.slice_on hfit'
    rwa [show (FlashChange.write c.tableOffsets.1.toNat t'.encode).length = tableSize from
      t'.length_encode] at this
  -- the block stands in another home, and the new table names the same place for it
  have hs : Stores c (afterAll (replaceChanges c.tableOffsets.1 tableSize t'.encode) cells) t' bo := by
    refine ⟨hsome, ?_, ?_, hb⟩
    · have := (hw₂.slice_home hl hmem hsize.symm hh.block h₁₃).trans
        (hw₁.slice_home hl hmem rfl hh.block h₁₃)
      exact (storedBlock?_congr hh.blockPlace (hp.trans hh.blockPlace) this).trans h.block
    · have : (afterAll (replaceChanges c.tableOffsets.1 tableSize t'.encode) cells).size = cells.size :=
        (FlashChange.size_on hfit').trans hsize
      rwa [this]
  refine ⟨⟨h.guarded, h.spares hw₁ hmem fun _ => h.not_booted hmem hh.first.kept, hfit, ?_, ?_, hfit',
    hs.guarded⟩, hs⟩
  · intro t₁ ht₁
    rw [hnone] at ht₁
    cases ht₁
  · intro t₁ b₁ ht₁
    rw [hnone] at ht₁
    cases ht₁

/-- The pointer block that counts is replaced by one that boots. -/
theorem Stores.replace_block (h : Stores c cells t bo) (hh : Homes c t block backup e₁ e₂ e₃ e₄)
    (hv : b'.verifies = true) (hb : Boots t b') :
    Careful c (replaceChanges block tableSize b'.encode) cells ∧
      Stores c (afterAll (replaceChanges block tableSize b'.encode) cells) t (some b') := by
  obtain ⟨-, h₁₃, -⟩ := hh.ne
  have hl := h.directory.toListing
  have hw := hh.block.within b'.length_encode
  have hw₁ := hw _ List.mem_cons_self
  have hw₂ := hw _ (List.mem_cons_of_mem _ List.mem_cons_self)
  have hmem := hh.block.listed
  have hfit := hw₁.fits hl hmem rfl
  have hsize := FlashChange.size_on hfit
  have hfit' := hw₂.fits hl hmem hsize.symm
  have htable := hw₁.slice_home hl hmem rfl hh.first h₁₃.symm
  -- between the two changes the cells hold a table but no block
  have hs₁ : Stores c ((FlashChange.erase block.toNat tableSize).on cells) t none := by
    refine ⟨(storedTable?_congr htable).trans h.table, ?_, ?_, by simp⟩
    · exact storedBlock?_of_erased hh.blockPlace (FlashChange.slice_on hfit)
    · rw [hsize]
      exact h.directory
  have hs₂ : Stores c (afterAll (replaceChanges block tableSize b'.encode) cells) t (some b') := by
    refine ⟨?_, ?_, ?_, ?_⟩
    · have := (hw₂.slice_home hl hmem hsize.symm hh.first h₁₃.symm).trans htable
      exact (storedTable?_congr this).trans h.table
    · refine storedBlock?_of_encode hh.blockPlace hv ?_
      have := FlashChange.slice_on hfit'
      rwa [show (FlashChange.write block.toNat b'.encode).length = tableSize from
        b'.length_encode] at this
    · have : (afterAll (replaceChanges block tableSize b'.encode) cells).size = cells.size :=
        (FlashChange.size_on hfit').trans hsize
      rw [this]
      exact h.directory
    · intro b₁ hb₁
      obtain rfl := Option.some.inj hb₁
      exact hb
  exact ⟨⟨h.guarded, h.spares hw₁ hmem fun _ => h.not_booted hmem hh.block.kept, hfit, hs₁.guarded,
    hs₁.spares hw₂ hmem (by simp), hfit', hs₂.guarded⟩, hs₂⟩

end Homes

end RemoteUpdate.Session
