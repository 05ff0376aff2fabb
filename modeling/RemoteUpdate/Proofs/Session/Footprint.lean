import RemoteUpdate.Proofs.Session.Invariance

/-!
# Where operations write

A flash device has a window for each of its tables, and the changes of an operation stay in these windows and
in the slot whose contents the operation replaces. The partition table that counts comes last, so that it is
the old one, none, or the new one, wherever the changes stop.
-/

namespace RemoteUpdate

namespace SlotOperation

/-- The slot whose contents the operation replaces. -/
def rewritten? : SlotOperation → Option ℕ
  | .erase slot | .program _ slot _ => some slot
  | _ => none

/-- The slot that the operation removes. -/
def removed? : SlotOperation → Option ℕ
  | .delete slot => some slot
  | _ => none

end SlotOperation

namespace Session

variable {ρ : Type} {c : Session ρ} {cells : ByteArray} {t t' : PartitionTable} {b : PointerBlock}
  {e f : PartitionEntry} {change : FlashChange} {changes front : List FlashChange} {place : UInt64}
  {target removed : Option PartitionEntry} {size a n : ℕ}

/-! ### Windows -/

def copyPlaces (c : Session ρ) (t : PartitionTable) : List UInt64 :=
  c.tableOffsets.2 :: c.blockPlaces t

def tablePlaces (c : Session ρ) (t : PartitionTable) : List UInt64 :=
  c.tableOffsets.1 :: c.copyPlaces t

/-- The window of a table is apart from the entries that it is not at home in. -/
theorem Home.apart (h : Home t a e) (hl : Listing size t.listed) (hf : f ∈ t.listed) (hne : e ≠ f) :
    Cells.Apart a tableSize f.offset.toNat f.length.toNat := by
  have hd := hl.apart_of_ne h.listed hf hne
  have hlow := h.low
  have hhigh := h.high
  unfold PartitionEntry.top at hhigh
  unfold PartitionEntry.Apart Cells.Apart at hd
  unfold Cells.Apart
  omega

theorem Directory.home_of_copy (h : Directory c size t) (hp : place ∈ c.copyPlaces t) :
    ∃ e e₁, Home t place.toNat e ∧ Home t c.tableOffsets.1.toNat e₁ ∧ e ≠ e₁ := by
  obtain ⟨block, backup, e₁, e₂, e₃, e₄, hh⟩ := h.homes
  obtain ⟨h₁₂, h₁₃, h₁₄, -⟩ := hh.ne
  have hplaces : place = c.tableOffsets.2 ∨ place = block ∨ place = backup := by
    simpa [copyPlaces, blockPlaces, hh.blockPlace, hh.backupPlace] using hp
  rcases hplaces with rfl | rfl | rfl
  · exact ⟨e₂, e₁, hh.second, hh.first, h₁₂.symm⟩
  · exact ⟨e₃, e₁, hh.block, hh.first, h₁₃.symm⟩
  · exact ⟨e₄, e₁, hh.backup, hh.first, h₁₄.symm⟩

theorem Directory.copy_apart (h : Directory c size t) (hp : place ∈ c.copyPlaces t) :
    Cells.Apart place.toNat tableSize c.tableOffsets.1.toNat tableSize := by
  obtain ⟨e, e₁, he, he₁, hne⟩ := h.home_of_copy hp
  have hd := he.apart h.toListing he₁.listed hne
  have hlow := he₁.low
  have hhigh := he₁.high
  unfold PartitionEntry.top at hhigh
  unfold Cells.Apart at hd ⊢
  omega

theorem Directory.window_apart (h : Directory c size t) (hp : place ∈ c.tablePlaces t)
    (he : e ∈ t.listed) (hu : e.isProtected = false) :
    Cells.Apart place.toNat tableSize e.offset.toNat e.length.toNat := by
  have home : ∃ f, Home t place.toNat f := by
    rcases List.mem_cons.mp hp with rfl | hp
    · obtain ⟨block, backup, e₁, e₂, e₃, e₄, hh⟩ := h.homes
      exact ⟨e₁, hh.first⟩
    · obtain ⟨f, -, hf, -⟩ := h.home_of_copy hp
      exact ⟨f, hf⟩
  obtain ⟨f, hf⟩ := home
  refine hf.apart h.toListing he ?_
  rintro rfl
  rw [hf.kept] at hu
  cases hu

/-! ### Open slots -/

/-- The entry of a slot in the stored table, if the slot may be changed. -/
def openSlot? (c : Session ρ) (cells : ByteArray) (slot : ℕ) : Option PartitionEntry :=
  ((c.storedTable? cells).bind fun t => t.listed[slot]?).filter fun e => !e.isProtected

theorem Open.openSlot? {slot : ℕ} (h : c.Open cells slot t b e) : c.openSlot? cells slot = some e := by
  simp [Session.openSlot?, h.table, h.entry, h.mutable]

theorem of_openSlot? {slot : ℕ} (ht : c.storedTable? cells = some t)
    (h : c.openSlot? cells slot = some e) : e ∈ t.listed ∧ e.isProtected = false := by
  unfold openSlot? at h
  rw [ht, Option.bind_some] at h
  obtain ⟨he, hu⟩ := Option.filter_eq_some_iff.mp h
  exact ⟨List.mem_of_getElem? he, by simpa using hu⟩

/-! ### Tables that follow one another -/

/-- The entries of `t` other than `removed` are entries of `t'` up to their names, and those that are
protected are entries as they are. -/
def Succeeds (t t' : PartitionTable) (removed : Option PartitionEntry) : Prop :=
  ∀ e ∈ t.listed, removed ≠ some e → ∃ f ∈ t'.listed, f.offset = e.offset ∧ f.length = e.length ∧
    f.flags = e.flags ∧ (e.isProtected = true → f = e)

theorem Succeeds.refl (t : PartitionTable) (removed : Option PartitionEntry) : Succeeds t t removed :=
  fun e he _ => ⟨e, he, rfl, rfl, rfl, fun _ => rfl⟩

theorem Succeeds.push {slot : ℕ} (h : t.push e = .ok (slot, t')) : Succeeds t t' removed := by
  obtain ⟨-, hl, -⟩ := PartitionTable.push_eq_ok h
  intro f hf _
  exact ⟨f, hl ▸ List.mem_append_left _ hf, rfl, rfl, rfl, fun _ => rfl⟩

theorem Succeeds.remove {slot : ℕ} (h : t.remove slot = .ok (e, t')) : Succeeds t t' (some e) := by
  obtain ⟨he, hl, -⟩ := PartitionTable.remove_eq_ok h
  intro f hf hne
  refine ⟨f, ?_, rfl, rfl, rfl, fun _ => rfl⟩
  rw [hl]
  exact mem_eraseIdx_of_ne he hf fun hfe => hne (hfe ▸ rfl)

theorem Succeeds.rename {slot : ℕ} {name : String} (he : t.listed[slot]? = some e)
    (hu : e.isProtected = false) (h : t.modifyEntry slot (·.rename name) = .ok t') :
    Succeeds t t' removed := by
  obtain ⟨e₁, e', he₁, hren, hl, -⟩ := PartitionTable.modifyEntry_eq_ok h
  obtain rfl := Option.some.inj (he.symm.trans he₁)
  obtain ⟨-, ho, hlen, hflags⟩ := PartitionEntry.rename_eq_ok hren
  intro f hf _
  rw [hl]
  by_cases hfe : f = e
  · subst hfe
    have hslot := (List.getElem?_eq_some_iff.mp he).1
    refine ⟨e', List.mem_of_getElem? (List.getElem?_set_self hslot), ho, hlen, hflags, fun hp => ?_⟩
    rw [hu] at hp
    cases hp
  · exact ⟨f, mem_set_of_ne he hf hfe, rfl, rfl, rfl, fun _ => rfl⟩

/-- What is not removed may not be protected. -/
theorem Succeeds.kept (h : Succeeds t t' removed) (hr : ∀ e, removed = some e → e.isProtected = false) :
    ∀ e ∈ t.listed, e.isProtected = true → e ∈ t'.listed := by
  intro e he hp
  obtain ⟨f, hf, -, -, -, hsame⟩ := h e he fun hre => by
    rw [hr e hre] at hp
    cases hp
  exact hsame hp ▸ hf

/-! ### Footprints -/

/-- The change stays in the window of a table that does not count, or in the target. -/
def Beside (c : Session ρ) (t : PartitionTable) (target : Option PartitionEntry)
    (change : FlashChange) : Prop :=
  (∃ place ∈ c.copyPlaces t, change.Inside place.toNat tableSize) ∨
    ∃ e, target = some e ∧ change.Inside e.offset.toNat e.length.toNat

/-- Changes beside the stored partition table, and then its replacement by another that is as good, if there is
one. -/
inductive Footprint (c : Session ρ) (size : ℕ) (t : PartitionTable)
    (target removed : Option PartitionEntry) : List FlashChange → Prop
  | same {side : List FlashChange} (beside : ∀ change ∈ side, Beside c t target change) :
      Footprint c size t target removed side
  | replaced {side : List FlashChange} {t' : PartitionTable}
      (beside : ∀ change ∈ side, Beside c t target change) (verifies : t'.verifies = true)
      (directory : Directory c size t') (succeeds : Succeeds t t' removed) :
      Footprint c size t target removed (side ++ replaceChanges c.tableOffsets.1 tableSize t'.encode)

theorem beside_blockChanges (hc : Compact c) (t : PartitionTable) (b : PointerBlock)
    (target : Option PartitionEntry) : ∀ change ∈ c.blockChanges t b, Beside c t target change := by
  intro change hm
  unfold blockChanges at hm
  rw [hc.block] at hm
  obtain ⟨place, hplace, hm⟩ := List.mem_flatMap.mp hm
  exact .inl ⟨place, List.mem_cons_of_mem _ hplace, inside_replaceChanges b.length_encode.le change hm⟩

theorem beside_disableChanges (hc : Compact c) (t : PartitionTable) (b : PointerBlock) (p : UInt64)
    (target : Option PartitionEntry) : ∀ change ∈ c.disableChanges t b p, Beside c t target change := by
  unfold disableChanges
  split
  · exact beside_blockChanges hc t _ target
  · exact fun _ hm => absurd hm List.not_mem_nil

theorem beside_enableChanges (hc : Compact c) (t : PartitionTable) (b : PointerBlock) (p : UInt64)
    (target : Option PartitionEntry) : ∀ change ∈ c.enableChanges t b p, Beside c t target change := by
  unfold enableChanges
  split
  · exact beside_blockChanges hc t _ target
  · exact fun _ hm => absurd hm List.not_mem_nil

theorem beside_contentChanges {capacity : ℕ} {contents : FlashPartition → List FlashChange}
    (h : ∀ p : FlashPartition, p.base = e.offset.toNat →
      p.length = e.length.toNat → ∀ change ∈ contents p, Beside c t target change) :
    ∀ change ∈ contentChanges capacity e contents, Beside c t target change := by
  unfold contentChanges
  split
  next p hp =>
    obtain ⟨hbase, hlen, -⟩ := ofEntry_eq_ok hp
    exact h p hbase hlen
  · exact fun _ hm => absurd hm List.not_mem_nil

/-- Saving a partition table after changes beside it. -/
theorem footprint_tableChanges (hc : Compact c) (side : List FlashChange)
    (hside : ∀ change ∈ side, Beside c t target change) (hv : t'.verifies = true)
    (hd : Directory c size t') (hs : Succeeds t t' removed) :
    Footprint c size t target removed (side ++ c.tableChanges t') := by
  unfold tableChanges
  rw [hc.table, ← List.append_assoc]
  refine .replaced ?_ hv hd hs
  intro change hm
  rcases List.mem_append.mp hm with hm | hm
  · exact hside change hm
  · exact .inl ⟨_, List.mem_cons_self, inside_replaceChanges t'.length_encode.le change hm⟩

theorem verifies_of_storedTable? (h : c.storedTable? cells = some t) : t.verifies = true :=
  (Option.filter_eq_some_iff.mp h).2

/-- The stored partition table is a good directory of the device, as far as it can be used. -/
def Orderly (c : Session ρ) (cells : ByteArray) : Prop :=
  ∀ t, c.storedTable? cells = some t → Directory c cells.size t

theorem Guarded.orderly (h : Guarded c cells) : Orderly c cells :=
  fun t ht => (h t ht).1

/-- An operation is refused, or its changes leave this footprint. -/
theorem Plans.footprint {op : SlotOperation} {r : Except UpdateError Unit} (hc : Compact c)
    (ho : Orderly c cells) (h : Plans c cells op changes r) :
    changes = [] ∨ ∃ t, c.storedTable? cells = some t ∧ Footprint c cells.size t
      (op.rewritten?.bind (c.openSlot? cells)) (op.removed?.bind (c.openSlot? cells)) changes := by
  -- an edit adds no defect to a stored table, which has none
  have verifies {t t' : PartitionTable} (ht : c.storedTable? cells = some t)
      (hdef : t.defect? = none → t'.defect? = none) : t'.verifies = true := by
    have := verifies_of_storedTable? ht
    unfold PartitionTable.verifies at this ⊢
    rw [Option.isNone_iff_eq_none] at this ⊢
    exact hdef this
  cases h with
  | refused => exact .inl rfl
  | @created _ _ _ t _ _ _ table made fresh sized fits apart pushed =>
    exact .inr ⟨t, table, footprint_tableChanges hc [] (by simp)
      (verifies table (PartitionTable.push_eq_ok pushed).2.2)
      ((ho t table).push made fresh sized fits apart pushed).1 (.push pushed)⟩
  | @deleted slot t t' b e opened removed =>
    have hentry := opened.openSlot?
    rw [SlotOperation.removed?, Option.bind_some, hentry]
    exact .inr ⟨t, opened.table, footprint_tableChanges hc _ (beside_disableChanges hc t b _ _)
      (verifies opened.table (PartitionTable.remove_eq_ok removed).2.2)
      ((ho t opened.table).remove opened.mutable removed).1 (.remove removed)⟩
  | @renamed _ _ t _ _ table entry mutable fresh edited =>
    obtain ⟨-, -, -, -, -, hdef⟩ := PartitionTable.modifyEntry_eq_ok edited
    exact .inr ⟨t, table, footprint_tableChanges hc [] (by simp) (verifies table hdef)
      ((ho t table).rename entry mutable fresh edited).1 (.rename entry mutable edited)⟩
  | @enabled _ t b _ opened => exact .inr ⟨t, opened.table, .same (beside_enableChanges hc t b _ _)⟩
  | @disabled _ t b _ opened => exact .inr ⟨t, opened.table, .same (beside_disableChanges hc t b _ _)⟩
  | @erased slot t b e opened =>
    have hentry := opened.openSlot?
    rw [SlotOperation.rewritten?, Option.bind_some, hentry]
    refine .inr ⟨t, opened.table, .same (List.forall_mem_append.mpr
      ⟨beside_disableChanges hc t b _ _, beside_contentChanges fun p hbase hlen => ?_⟩)⟩
    rw [hbase, hlen]
    exact List.forall_mem_singleton.mpr (.inr ⟨e, rfl, le_rfl, le_rfl⟩)
  | @programmed kind slot image t b e opened nonempty fits =>
    have hentry := opened.openSlot?
    rw [SlotOperation.rewritten?, Option.bind_some, hentry]
    refine .inr ⟨t, opened.table, .same (List.forall_mem_append.mpr
      ⟨beside_disableChanges hc t b _ _, beside_contentChanges fun p hbase hlen => ?_⟩)⟩
    refine List.forall_mem_append.mpr ⟨?_, ?_⟩
    · rw [hbase, hlen]
      exact fun change hm => .inr ⟨e, rfl, inside_replaceChanges fits change hm⟩
    · split
      · exact fun _ hm => absurd hm List.not_mem_nil
      · exact beside_enableChanges hc t _ _ _
  | @emptied t r table => exact .inr ⟨t, table, .same (beside_blockChanges hc t _ _)⟩

/-! ### What is left alone -/

theorem Beside.apart (h : Beside c t target change)
    (hplaces : ∀ place ∈ c.copyPlaces t, Cells.Apart place.toNat tableSize a n)
    (htarget : ∀ e, target = some e → Cells.Apart e.offset.toNat e.length.toNat a n) :
    Cells.Apart change.address change.length a n := by
  rcases h with ⟨place, hplace, hin⟩ | ⟨e, he, hin⟩
  · exact hin.apart (hplaces place hplace)
  · exact hin.apart (htarget e he)

/-- A range outside the windows and the target is apart from all changes. -/
theorem Footprint.apart (h : Footprint c size t target removed changes)
    (hplaces : ∀ place ∈ c.tablePlaces t, Cells.Apart place.toNat tableSize a n)
    (htarget : ∀ e, target = some e → Cells.Apart e.offset.toNat e.length.toNat a n) :
    ∀ change ∈ changes, Cells.Apart change.address change.length a n := by
  have hcopies : ∀ place ∈ c.copyPlaces t, Cells.Apart place.toNat tableSize a n :=
    fun place hp => hplaces place (List.mem_cons_of_mem _ hp)
  cases h with
  | same beside => exact fun change hm => (beside change hm).apart hcopies htarget
  | replaced beside =>
    refine List.forall_mem_append.mpr ⟨fun change hm => (beside change hm).apart hcopies htarget, ?_⟩
    exact replaceChanges_apart (PartitionTable.length_encode _).le (hplaces _ List.mem_cons_self)

section Stored

variable (hd : Directory c cells.size t)
  (htarget : ∀ e, target = some e → e ∈ t.listed ∧ e.isProtected = false)
include hd

theorem Home.fits {place : UInt64} (hh : Home t place.toNat e)
    (hin : change.Inside place.toNat tableSize) : change.Fits cells := by
  have hinside := hd.inside e hh.listed
  have hhigh := hh.high
  obtain ⟨-, hend⟩ := hin
  unfold FlashChange.Fits
  omega

include htarget

theorem Beside.fits (h : Beside c t target change) : change.Fits cells := by
  rcases h with ⟨place, hplace, hin⟩ | ⟨e, he, hin⟩
  · obtain ⟨e, -, hh, -⟩ := hd.home_of_copy hplace
    exact hh.fits hd hin
  · exact Within.fits hin hd.toListing (htarget e he).1 rfl

theorem Footprint.fits (h : Footprint c cells.size t target removed changes) :
    ∀ change ∈ changes, change.Fits cells := by
  cases h with
  | same beside => exact fun change hm => (beside change hm).fits hd htarget
  | replaced beside =>
    refine List.forall_mem_append.mpr ⟨fun change hm => (beside change hm).fits hd htarget, ?_⟩
    obtain ⟨block, backup, e₁, e₂, e₃, e₄, hh⟩ := hd.homes
    exact fun change hm => hh.first.fits hd
      (inside_replaceChanges (PartitionTable.length_encode _).le change hm)

/-- Changes beside the stored partition table leave it as it is. -/
theorem storedTable?_beside (ht : c.storedTable? cells = some t) {side : List FlashChange}
    (hbeside : ∀ change ∈ side, Beside c t target change) :
    c.storedTable? (afterAll side cells) = some t := by
  have hfits : ∀ change ∈ side, change.Fits cells := fun change hm => (hbeside change hm).fits hd htarget
  refine (storedTable?_congr (slice_afterAll_apart hfits fun change hm => ?_)).trans ht
  refine (hbeside change hm).apart (fun place hp => hd.copy_apart hp) fun e he => ?_
  obtain ⟨hmem, hu⟩ := htarget e he
  exact (hd.window_apart List.mem_cons_self hmem hu).symm

/-- Wherever the changes stop, a stored table is the old one or one that succeeds it. -/
theorem Footprint.stored (h : Footprint c cells.size t target removed changes)
    (ht : c.storedTable? cells = some t) (hfront : front <+: changes)
    (ht' : c.storedTable? (afterAll front cells) = some t') :
    Directory c cells.size t' ∧ Succeeds t t' removed := by
  have old {side : List FlashChange} (hbeside : ∀ change ∈ side, Beside c t target change)
      (hbefore : front <+: side) : Directory c cells.size t' ∧ Succeeds t t' removed := by
    have := storedTable?_beside hd htarget ht fun change hm => hbeside change (hbefore.subset hm)
    obtain rfl := Option.some.inj (this.symm.trans ht')
    exact ⟨hd, .refl t removed⟩
  have hfit := h.fits hd htarget
  cases h with
  | same beside => exact old beside hfront
  | @replaced side t₁ beside verifies directory succeeds =>
    obtain ⟨hfits, hfit'⟩ := List.forall_mem_append.mp hfit
    have hrest : ∀ change ∈ replaceChanges c.tableOffsets.1 tableSize t₁.encode,
        change.Fits (afterAll side cells) := fun change hm => (hfit' change hm).afterAll hfits
    have hsplit : side ++ replaceChanges c.tableOffsets.1 tableSize t₁.encode =
        side ++ [.erase c.tableOffsets.1.toNat tableSize] ++ [.write c.tableOffsets.1.toNat t₁.encode] := by
      simp [replaceChanges]
    rw [hsplit, List.prefix_concat_iff, List.prefix_concat_iff] at hfront
    rcases hfront with rfl | rfl | hfront
    · -- all changes were made
      have hslice := slice_replaceChanges [] (by simpa using hrest) (by simp)
      rw [List.append_nil, t₁.length_encode] at hslice
      rw [← hsplit, afterAll_append, storedTable?_of_encode verifies hslice] at ht'
      exact Option.some.inj ht' ▸ ⟨directory, succeeds⟩
    · -- the table was erased and not yet written
      have herased := FlashChange.slice_on (hrest _ List.mem_cons_self)
      rw [afterAll_append] at ht'
      have hnone : c.storedTable? (afterAll [.erase c.tableOffsets.1.toNat tableSize]
          (afterAll side cells)) = none := storedTable?_of_erased herased
      rw [hnone] at ht'
      cases ht'
    · exact old beside hfront

end Stored

/-- Whatever the pointer block holds: however far an operation gets, the partition table stays a good directory
as far as it can be used, and succeeds the one that was stored. -/
theorem Plans.orderly {op : SlotOperation} {r : Except UpdateError Unit} (hc : Compact c)
    (h : Plans c cells op changes r) (ho : Orderly c cells) (hfront : front <+: changes) :
    Orderly c (afterAll front cells) ∧ ∀ t', c.storedTable? (afterAll front cells) = some t' →
      ∃ t, c.storedTable? cells = some t ∧ Succeeds t t' (op.removed?.bind (c.openSlot? cells)) := by
  rcases h.footprint hc ho with rfl | ⟨t, ht, hfoot⟩
  · obtain rfl := List.prefix_nil.mp hfront
    exact ⟨ho, fun t' ht' => ⟨t', ht', .refl t' _⟩⟩
  have htarget : ∀ e, op.rewritten?.bind (c.openSlot? cells) = some e →
      e ∈ t.listed ∧ e.isProtected = false := by
    intro e he
    obtain ⟨slot, -, hopen⟩ := Option.bind_eq_some_iff.mp he
    exact of_openSlot? ht hopen
  have hsize : (afterAll front cells).size = cells.size :=
    size_afterAll fun change hm => hfoot.fits (ho t ht) htarget change (hfront.subset hm)
  refine ⟨fun t' ht' => ?_, fun t' ht' => ⟨t, ht, ?_⟩⟩
  · rw [hsize]
    exact (hfoot.stored (ho t ht) htarget ht hfront ht').1
  · exact (hfoot.stored (ho t ht) htarget ht hfront ht').2

end Session

end RemoteUpdate
