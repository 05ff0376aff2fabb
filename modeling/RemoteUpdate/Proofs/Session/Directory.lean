import Mathlib.Data.List.Nodup
import Mathlib.Data.List.Pairwise
import RemoteUpdate.Proofs.Flash.Cells
import RemoteUpdate.Proofs.Table.Partitions
import RemoteUpdate.Proofs.Table.Pointers
import RemoteUpdate.Proofs.Session.Effects

/-!
# Good partition tables and good pointer blocks

A partition table is a good `Directory` of a device if its entries have distinct names and non-empty
ranges of the device that share no byte, and the four tables of the device are at home in four protected
entries. A pointer block boots from such a directory if its pointers are distinct and each refers to an
entry that is not protected. The operations on entries and pointers keep both.
-/

namespace RemoteUpdate

variable {ρ : Type}

/-! ### Ranges -/

namespace PartitionEntry

/-- The partitions share no byte. -/
def Apart (e f : PartitionEntry) : Prop :=
  Cells.Apart e.offset.toNat e.length.toNat f.offset.toNat f.length.toNat

instance : Std.Symm PartitionEntry.Apart := ⟨fun _ _ => Cells.Apart.symm⟩

end PartitionEntry

/-- Distinct names and ranges that share no byte. -/
structure Tidy (l : List PartitionEntry) : Prop where
  names : (l.map PartitionEntry.nameBytes).Nodup
  apart : l.Pairwise PartitionEntry.Apart

/-- A new entry that was checked against the table. -/
theorem Tidy.insert {t : PartitionTable} {e : PartitionEntry} {name : String} {offset : UInt64}
    {length flags : UInt32} (h : Tidy t.listed) (made : PartitionEntry.make name offset length flags = .ok e)
    (fresh : t.findName? name = none) (apart : t.findOverlap offset length = .ok none) :
    Tidy (t.listed ++ [e]) := by
  obtain ⟨hname, ho, hlen, -⟩ := PartitionEntry.rename_eq_ok made
  have ho : e.offset = offset := ho
  have hlen : e.length = length := hlen
  refine ⟨?_, ?_⟩
  · rw [List.map_append, List.nodup_append]
    refine ⟨h.names, List.nodup_singleton _, ?_⟩
    intro x hx y hy
    obtain ⟨f, hf, rfl⟩ := List.mem_map.mp hx
    rw [List.mem_singleton.mp hy, hname]
    exact PartitionTable.findName?_eq_none_iff.mp fresh f hf
  · rw [List.pairwise_append]
    refine ⟨h.apart, List.pairwise_singleton _ _, fun f hf g hg => ?_⟩
    have := PartitionTable.firstOverlap_eq_none apart hf
    rw [List.mem_singleton.mp hg]
    unfold PartitionEntry.top at this
    unfold PartitionEntry.Apart Cells.Apart
    rw [ho, hlen]
    omega

/-- Distinct names and non-empty ranges of a device with so many bytes that share no byte. -/
structure Listing (size : ℕ) (l : List PartitionEntry) : Prop where
  names : (l.map PartitionEntry.nameBytes).Nodup
  nonempty : ∀ e ∈ l, 0 < e.length.toNat
  inside : ∀ e ∈ l, e.top ≤ size
  apart : l.Pairwise PartitionEntry.Apart

namespace Listing

variable {size i : ℕ} {l : List PartitionEntry} {e e' f : PartitionEntry} {name : String}

theorem apart_of_ne (h : Listing size l) (he : e ∈ l) (hf : f ∈ l) (hne : e ≠ f) : e.Apart f :=
  h.apart.forall he hf hne

theorem eq_of_offset (h : Listing size l) (he : e ∈ l) (hf : f ∈ l) (ho : e.offset = f.offset) :
    e = f := by
  by_contra hne
  have hd := h.apart_of_ne he hf hne
  have := h.nonempty e he
  have := h.nonempty f hf
  unfold PartitionEntry.Apart Cells.Apart at hd
  rw [ho] at hd
  omega

theorem tidy (h : Listing size l) : Tidy l := ⟨h.names, h.apart⟩

theorem insert {t : PartitionTable} {offset : UInt64} {length flags : UInt32}
    (h : Listing size t.listed) (made : PartitionEntry.make name offset length flags = .ok e)
    (fresh : t.findName? name = none) (sized : length ≠ 0) (fits : e.top ≤ size)
    (apart : t.findOverlap offset length = .ok none) : Listing size (t.listed ++ [e]) := by
  obtain ⟨-, -, hlen, -⟩ := PartitionEntry.rename_eq_ok made
  have hlen : e.length = length := hlen
  obtain ⟨hnames, hapart⟩ := h.tidy.insert made fresh apart
  refine ⟨hnames, fun f hf => ?_, fun f hf => ?_, hapart⟩
  · rcases List.mem_append.mp hf with hf | hf
    · exact h.nonempty f hf
    · rw [List.mem_singleton.mp hf, hlen]
      exact Nat.pos_of_ne_zero fun h0 => sized (UInt32.toNat_inj.mp h0)
  · rcases List.mem_append.mp hf with hf | hf
    · exact h.inside f hf
    · rwa [List.mem_singleton.mp hf]

theorem eraseIdx (h : Listing size l) (i : ℕ) : Listing size (l.eraseIdx i) where
  names := h.names.sublist ((List.eraseIdx_sublist _ _).map _)
  nonempty f hf := h.nonempty f (List.mem_of_mem_eraseIdx hf)
  inside f hf := h.inside f (List.mem_of_mem_eraseIdx hf)
  apart := h.apart.sublist (List.eraseIdx_sublist _ _)

theorem rename (h : Listing size l) (he : l[i]? = some e) (ho : e'.offset = e.offset)
    (hl : e'.length = e.length)
    (hname : ∀ (k : ℕ) (f : PartitionEntry), l[k]? = some f → f.nameBytes = e'.nameBytes → k = i) :
    Listing size (l.set i e') := by
  have hmem : e ∈ l := List.mem_of_getElem? he
  have put_back {α : Type} (view : PartitionEntry → α) (hv : view e' = view e) :
      (l.set i e').map view = l.map view := by
    obtain ⟨hi, rfl⟩ := List.getElem?_eq_some_iff.mp he
    have hi : i < (l.map view).length := by simpa using hi
    have : (l.map view).set i (l.map view)[i] = l.map view := List.set_getElem_self hi
    rw [List.map_set, hv]
    rwa [List.getElem_map] at this
  refine ⟨?_, fun f hf => ?_, fun f hf => ?_, ?_⟩
  · by_cases hsame : e'.nameBytes ∈ l.map PartitionEntry.nameBytes
    · obtain ⟨f, hf, hfn⟩ := List.mem_map.mp hsame
      obtain ⟨k, hk⟩ := List.getElem?_of_mem hf
      obtain rfl := hname k f hk hfn
      obtain rfl := Option.some.inj (he.symm.trans hk)
      rw [put_back _ hfn.symm]
      exact h.names
    · rw [List.map_set]
      exact h.names.set hsame
  · rcases List.mem_or_eq_of_mem_set hf with hf | rfl
    · exact h.nonempty f hf
    · rw [hl]
      exact h.nonempty e hmem
  · rcases List.mem_or_eq_of_mem_set hf with hf | rfl
    · exact h.inside f hf
    · have := h.inside e hmem
      unfold PartitionEntry.top at this ⊢
      rwa [ho, hl]
  · -- being apart is a matter of the ranges, which stay
    have ranges (m : List PartitionEntry) : m.Pairwise PartitionEntry.Apart ↔
        (m.map fun f => (f.offset, f.length)).Pairwise fun p q =>
          Cells.Apart p.1.toNat p.2.toNat q.1.toNat q.2.toNat := by
      rw [List.pairwise_map]
      rfl
    rw [ranges, put_back _ (by rw [ho, hl]), ← ranges]
    exact h.apart

end Listing

namespace Session

/-! ### The homes of the tables -/

/-- A protected entry with room for a table at an address. -/
structure Home (t : PartitionTable) (a : ℕ) (e : PartitionEntry) : Prop where
  listed : e ∈ t.listed
  kept : e.isProtected = true
  low : e.offset.toNat ≤ a
  high : a + tableSize ≤ e.top

/-- Both partition tables and both pointer blocks are at home, in four different entries. -/
structure Homes (c : Session ρ) (t : PartitionTable) (block backup : UInt64)
    (e₁ e₂ e₃ e₄ : PartitionEntry) : Prop where
  blockPlace : placeOf? t c.layout.blockName = some block
  backupPlace : placeOf? t c.layout.backupName = some backup
  first : Home t c.tableOffsets.1.toNat e₁
  second : Home t c.tableOffsets.2.toNat e₂
  block : Home t block.toNat e₃
  backup : Home t backup.toNat e₄
  distinct : [e₁, e₂, e₃, e₄].Nodup

/-- A partition table that is good for a device with so many bytes. -/
structure Directory (c : Session ρ) (size : ℕ) (t : PartitionTable) : Prop extends
    Listing size t.listed where
  homes : ∃ block backup e₁ e₂ e₃ e₄, Homes c t block backup e₁ e₂ e₃ e₄

variable {c : Session ρ} {size : ℕ} {t t' : PartitionTable} {e f : PartitionEntry} {a : ℕ}

/-- The entry of a name that starts in its home is that home. -/
theorem Directory.named_home {name : String} {place : UInt64} (h : Directory c size t)
    (hp : placeOf? t name = some place) (hh : Home t place.toNat e) :
    e.nameBytes = nameOf name ∧ e.offset = place := by
  obtain ⟨f, hf, rfl⟩ := Option.map_eq_some_iff.mp hp
  have hmem := List.mem_of_find?_eq_some hf
  have hname := PartitionEntry.isNamed_iff.mp
    (List.find?_some (p := fun e : PartitionEntry => e.isNamed name) hf)
  suffices he : f = e from he ▸ ⟨hname, rfl⟩
  by_contra hne
  have hd := h.apart_of_ne hmem hh.listed hne
  have hpos := h.nonempty f hmem
  have hlow := hh.low
  have hhigh := hh.high
  have : 0 < tableSize := by decide
  unfold PartitionEntry.top at hhigh
  unfold PartitionEntry.Apart Cells.Apart at hd
  omega

section Keep

variable (h : Directory c size t) (hl : Listing size t'.listed)
  (hk : ∀ e ∈ t.listed, e.isProtected = true → e ∈ t'.listed)
include h hl hk

/-- A table that is at home stays where it is as long as the protected entries stay. -/
theorem Directory.placeOf?_keep {name : String} {place : UInt64} (hp : placeOf? t name = some place)
    (hh : Home t place.toNat e) : placeOf? t' name = some place := by
  obtain ⟨hname, ho⟩ := h.named_home hp hh
  unfold placeOf?
  rw [PartitionTable.find?_isNamed hl.names (hk e hh.listed hh.kept) hname, Option.map_some, ho]

/-- A directory stays good as long as its list is one and the protected entries stay. -/
theorem Directory.keep : Directory c size t' ∧
    placeOf? t' c.layout.blockName = placeOf? t c.layout.blockName := by
  obtain ⟨block, backup, e₁, e₂, e₃, e₄, hh⟩ := h.homes
  have home {a : ℕ} {e : PartitionEntry} (he : Home t a e) : Home t' a e :=
    { he with listed := hk e he.listed he.kept }
  have hblock := h.placeOf?_keep hl hk hh.blockPlace hh.block
  have hbackup := h.placeOf?_keep hl hk hh.backupPlace hh.backup
  refine ⟨{ hl with homes := ⟨block, backup, e₁, e₂, e₃, e₄, ?_⟩ }, hblock.trans hh.blockPlace.symm⟩
  exact ⟨hblock, hbackup, home hh.first, home hh.second, home hh.block, home hh.backup, hh.distinct⟩

theorem Directory.blockPlaces_keep : c.blockPlaces t' = c.blockPlaces t := by
  obtain ⟨block, backup, e₁, e₂, e₃, e₄, hh⟩ := h.homes
  unfold blockPlaces
  rw [hh.blockPlace, hh.backupPlace, h.placeOf?_keep hl hk hh.blockPlace hh.block,
    h.placeOf?_keep hl hk hh.backupPlace hh.backup]

end Keep

/-! ### Pointers -/

/-- The pointers are distinct, and each refers to an entry that is not protected. -/
structure Boots (t : PartitionTable) (b : PointerBlock) : Prop where
  distinct : b.priorities.Nodup
  bootable : ∀ p ∈ b.priorities, ∃ e ∈ t.listed, e.offset = p ∧ e.isProtected = false

variable {b b' : PointerBlock}

/-- Entries may come, go and change if what the pointers refer to stays. -/
theorem Boots.keep (h : Boots t b) (hk : ∀ e ∈ t.listed, e.isProtected = false →
      e.offset ∈ b.priorities → ∃ f ∈ t'.listed, f.offset = e.offset ∧ f.isProtected = false) :
    Boots t' b where
  distinct := h.distinct
  bootable p hp := by
    obtain ⟨e, he, rfl, hu⟩ := h.bootable p hp
    exact hk e he hu hp

theorem Boots.disable (h : Boots t b) (p : UInt64) : Boots t (b.disable p).2 where
  distinct := by
    rw [PointerBlock.priorities_disable]
    exact h.distinct.filter _
  bootable q hq := by
    rw [PointerBlock.priorities_disable] at hq
    exact h.bootable q (List.mem_of_mem_filter hq)

theorem not_mem_disable (p : UInt64) : p ∉ (b.disable p).2.priorities := by
  rw [PointerBlock.priorities_disable, List.mem_filter]
  simp

theorem Boots.enable (h : Boots t b) (he : e ∈ t.listed) (hu : e.isProtected = false)
    (hb : b.enable e.offset = (.ok true, b')) : Boots t b' := by
  obtain ⟨hprio, -, -⟩ := PointerBlock.enable_changed hb
  constructor
  · rw [hprio, List.nodup_cons]
    exact ⟨by simp, h.distinct.filter _⟩
  · intro p hp
    rw [hprio] at hp
    rcases List.mem_cons.mp hp with rfl | hp
    · exact ⟨e, he, rfl, hu⟩
    · exact h.bootable p (List.mem_of_mem_filter hp)

theorem priorities_empty (n : ℕ) : (PointerBlock.empty n).priorities = [] := by
  rw [PointerBlock.priorities_eq, List.eq_nil_iff_forall_not_mem]
  intro p hp
  obtain ⟨hp, hptr⟩ := PointerBlock.mem_bootOrder.mp hp
  have : p = erasedPointer := by
    have := List.mem_of_mem_take hp
    unfold PointerBlock.empty at this
    dsimp only at this
    rw [Vector.toList_replicate] at this
    exact List.eq_of_mem_replicate this
  rw [this] at hptr
  exact absurd hptr (by decide)

theorem boots_empty (t : PartitionTable) (n : ℕ) : Boots t (.empty n) where
  distinct := by
    rw [priorities_empty]
    exact List.nodup_nil
  bootable p hp := by
    rw [priorities_empty] at hp
    cases hp

end Session

end RemoteUpdate
