import RemoteUpdate.Proofs.Session.Integrity
import RemoteUpdate.Proofs.Table.BootOrder

/-!
# Operations are careful

The plans of all operations are put together from four pieces: saving a partition table, saving a pointer
block, taking a pointer out or putting it on top, and changing the contents of a slot that is not booted.
Each piece is careful and says what the cells store afterwards.
-/

namespace RemoteUpdate.Session

variable {ρ : Type} {c : Session ρ} {cells : ByteArray} {t t' : PartitionTable} {b b' : PointerBlock}
  {e e' : PartitionEntry} {changes : List FlashChange} {bo : Option PointerBlock} {i : ℕ}

/-! ### What becomes of a directory -/

theorem mem_eraseIdx_of_ne {l : List PartitionEntry} {f : PartitionEntry} (he : l[i]? = some e)
    (hf : f ∈ l) (hne : f ≠ e) : f ∈ l.eraseIdx i := by
  obtain ⟨k, hk⟩ := List.getElem?_of_mem hf
  refine List.mem_eraseIdx_iff_getElem?.mpr ⟨k, ?_, hk⟩
  rintro rfl
  exact hne (Option.some.inj (hk.symm.trans he))

theorem mem_set_of_ne {l : List PartitionEntry} {f : PartitionEntry} (he : l[i]? = some e)
    (hf : f ∈ l) (hne : f ≠ e) : f ∈ l.set i e' := by
  obtain ⟨k, hk⟩ := List.getElem?_of_mem hf
  have hik : i ≠ k := by
    rintro rfl
    exact hne (Option.some.inj (hk.symm.trans he))
  exact List.mem_of_getElem? ((List.getElem?_set_ne hik).trans hk)

theorem Directory.push {size : ℕ} {name : String} {offset : UInt64} {length : UInt32}
    (h : Directory c size t) (made : PartitionEntry.make name offset length 0 = .ok e)
    (fresh : t.findName? name = none) (sized : length ≠ 0) (fits : e.top ≤ size)
    (apart : t.findOverlap offset length = .ok none) (pushed : t.push e = .ok (i, t')) :
    Directory c size t' ∧ placeOf? t' c.layout.blockName = placeOf? t c.layout.blockName := by
  obtain ⟨-, hl, -⟩ := PartitionTable.push_eq_ok pushed
  refine h.keep ?_ ?_
  · rw [hl]
    exact h.toListing.insert made fresh sized fits apart
  · intro f hf _
    rw [hl]
    exact List.mem_append_left _ hf

theorem Boots.push (h : Boots t b) (pushed : t.push e = .ok (i, t')) : Boots t' b := by
  obtain ⟨-, hl, -⟩ := PartitionTable.push_eq_ok pushed
  refine h.keep fun f hf hu _ => ⟨f, ?_, rfl, hu⟩
  rw [hl]
  exact List.mem_append_left _ hf

theorem Directory.remove {size : ℕ} (h : Directory c size t) (mutable : e.isProtected = false)
    (removed : t.remove i = .ok (e, t')) : Directory c size t' ∧
      placeOf? t' c.layout.blockName = placeOf? t c.layout.blockName := by
  obtain ⟨he, hl, -⟩ := PartitionTable.remove_eq_ok removed
  refine h.keep ?_ ?_
  · rw [hl]
    exact h.toListing.eraseIdx i
  · intro f hf hk
    rw [hl]
    refine mem_eraseIdx_of_ne he hf ?_
    rintro rfl
    rw [mutable] at hk
    cases hk

theorem Boots.remove (h : Boots t b) (hn : e.offset ∉ b.priorities)
    (removed : t.remove i = .ok (e, t')) : Boots t' b := by
  obtain ⟨he, hl, -⟩ := PartitionTable.remove_eq_ok removed
  refine h.keep fun f hf hu hp => ⟨f, ?_, rfl, hu⟩
  rw [hl]
  refine mem_eraseIdx_of_ne he hf ?_
  rintro rfl
  exact hn hp

theorem Directory.rename {size : ℕ} {name : String} (h : Directory c size t)
    (entry : t.listed[i]? = some e) (mutable : e.isProtected = false)
    (fresh : ∀ other, t.findName? name = some other → other = i)
    (edited : t.modifyEntry i (·.rename name) = .ok t') : Directory c size t' ∧
      placeOf? t' c.layout.blockName = placeOf? t c.layout.blockName := by
  obtain ⟨e₁, e', he₁, hren, hl, -⟩ := PartitionTable.modifyEntry_eq_ok edited
  obtain rfl := Option.some.inj (entry.symm.trans he₁)
  obtain ⟨hname, ho, hlen, -⟩ := PartitionEntry.rename_eq_ok hren
  refine h.keep ?_ ?_
  · rw [hl]
    refine h.toListing.rename entry ho hlen ?_
    intro k f hk hf
    have hf : f.nameBytes = nameOf name := hf.trans hname
    -- names are distinct, so the one entry found by the new name is this one
    cases hn : t.findName? name with
    | none => exact absurd hf (PartitionTable.findName?_eq_none_iff.mp hn f (List.mem_of_getElem? hk))
    | some other =>
      obtain rfl := fresh other hn
      obtain ⟨g, hg, hgn⟩ := PartitionTable.findName?_eq_some hn
      have hlen : k < (t.listed.map PartitionEntry.nameBytes).length := by
        rw [List.length_map]
        exact (List.getElem?_eq_some_iff.mp hk).1
      refine (List.getElem?_inj hlen h.names).mp ?_
      rw [List.getElem?_map, List.getElem?_map, hk, hg, Option.map_some, Option.map_some, hf, hgn]
  · intro f hf hk
    rw [hl]
    refine mem_set_of_ne entry hf ?_
    rintro rfl
    rw [mutable] at hk
    cases hk

theorem Boots.rename {name : String} (h : Boots t b) (entry : t.listed[i]? = some e)
    (mutable : e.isProtected = false) (edited : t.modifyEntry i (·.rename name) = .ok t') :
    Boots t' b := by
  obtain ⟨e₁, e', he₁, hren, hl, -⟩ := PartitionTable.modifyEntry_eq_ok edited
  obtain rfl := Option.some.inj (entry.symm.trans he₁)
  obtain ⟨-, ho, -, hflags⟩ := PartitionEntry.rename_eq_ok hren
  refine h.keep fun f hf hu _ => ?_
  rw [hl]
  by_cases hfe : f = e
  · subst hfe
    have hi := (List.getElem?_eq_some_iff.mp entry).1
    refine ⟨e', List.mem_of_getElem? (List.getElem?_set_self hi), ho, ?_⟩
    rwa [PartitionEntry.isProtected_congr hflags]
  · exact ⟨f, mem_set_of_ne entry hf hfe, rfl, hu⟩

/-! ### The pieces of a plan -/

/-- The session erases as much space for a table as a table takes. -/
structure Compact (c : Session ρ) : Prop where
  table : c.layout.tableSpace = tableSize
  block : c.layout.blockSpace = tableSize

theorem Stores.save_table (h : Stores c cells t bo) (hc : Compact c) (hd : Directory c cells.size t')
    (hv : t'.verifies = true) (hp : placeOf? t' c.layout.blockName = placeOf? t c.layout.blockName)
    (hb : ∀ b, bo = some b → Boots t' b) : Careful c (c.tableChanges t') cells ∧
      Stores c (afterAll (c.tableChanges t') cells) t' bo := by
  obtain ⟨block, backup, e₁, e₂, e₃, e₄, hh⟩ := h.directory.homes
  obtain ⟨h₁₂, -, -, h₂₃, -, -⟩ := hh.ne
  unfold tableChanges
  rw [hc.table, afterAll_append]
  obtain ⟨hcare, hs⟩ := h.replace_copy hh t'.length_encode hh.second h₁₂.symm h₂₃
  have hd' : Directory c (afterAll (replaceChanges c.tableOffsets.2 tableSize t'.encode) cells).size t' := by
    rwa [hcare.size_after]
  obtain ⟨hcare', hs'⟩ := hs.replace_table hh hd' hv hp hb
  exact ⟨hcare.append hcare', hs'⟩

theorem Stores.save_block (h : Stores c cells t bo) (hc : Compact c) (hv : b'.verifies = true)
    (hb : Boots t b') : Careful c (c.blockChanges t b') cells ∧
      Stores c (afterAll (c.blockChanges t b') cells) t (some b') := by
  obtain ⟨block, backup, e₁, e₂, e₃, e₄, hh⟩ := h.directory.homes
  obtain ⟨-, -, h₁₄, -, -, h₃₄⟩ := hh.ne
  unfold blockChanges blockPlaces
  rw [hh.blockPlace, hh.backupPlace]
  dsimp only
  rw [Option.toList_some, List.flatMap_cons, List.flatMap_singleton, hc.block, afterAll_append]
  obtain ⟨hcare, hs⟩ := h.replace_block hh hv hb
  obtain ⟨hcare', hs'⟩ := hs.replace_copy hh b'.length_encode hh.backup h₁₄.symm h₃₄.symm
  exact ⟨hcare.append hcare', hs'⟩

theorem verifies_of_stored (h : Stores c cells t (some b)) : b.verifies = true := by
  have hb := h.block
  unfold storedBlock? at hb
  obtain ⟨p, -, hp⟩ := Option.bind_eq_some_iff.mp hb
  exact (Option.filter_eq_some_iff.mp hp).2

theorem Stores.disable (h : Stores c cells t (some b)) (hc : Compact c) (p : UInt64) :
    Careful c (c.disableChanges t b p) cells ∧
      Stores c (afterAll (c.disableChanges t b p) cells) t (some (b.disable p).2) := by
  unfold disableChanges
  split
  · have hv : (b.disable p).2.verifies = true := by
      unfold PointerBlock.verifies
      rw [PointerBlock.defect?_disable]
      exact verifies_of_stored h
    exact h.save_block hc hv ((h.boots b rfl).disable p)
  next hd =>
    rw [PointerBlock.disable_of_not_changed (by simpa using hd)]
    exact ⟨h.guarded, h⟩

theorem Stores.enable (h : Stores c cells t (some b)) (hc : Compact c) (he : e ∈ t.listed)
    (hu : e.isProtected = false) : Careful c (c.enableChanges t b e.offset) cells ∧
      Stores c (afterAll (c.enableChanges t b e.offset) cells) t (some (b.enable e.offset).2) := by
  unfold enableChanges
  rcases hb : b.enable e.offset with ⟨failure | (_ | _), b'⟩
  · rw [PointerBlock.enable_not_changed hb (by simp)]
    exact ⟨h.guarded, h⟩
  · rw [PointerBlock.enable_not_changed hb (by simp)]
    exact ⟨h.guarded, h⟩
  · obtain ⟨-, hdef, -⟩ := PointerBlock.enable_changed hb
    have hv : b'.verifies = true := by
      unfold PointerBlock.verifies
      rw [hdef]
      exact verifies_of_stored h
    exact h.save_block hc hv ((h.boots b rfl).enable he hu hb)

theorem Stores.contents (changes : List FlashChange) (h : Stores c cells t (some b)) (he : e ∈ t.listed)
    (hu : e.isProtected = false) (hn : e.offset ∉ b.priorities)
    (hw : ∀ change ∈ changes, Within change e) : Careful c changes cells ∧
      Stores c (afterAll changes cells) t (some b) := by
  obtain ⟨block, backup, e₁, e₂, e₃, e₄, hh⟩ := h.directory.homes
  have home_ne {a : ℕ} {f : PartitionEntry} (hf : Home t a f) : e ≠ f := by
    rintro rfl
    rw [hf.kept] at hu
    cases hu
  refine h.careful_within hh hw he (home_ne hh.first) (home_ne hh.block) ?_
  intro b₁ hb₁
  obtain rfl := Option.some.inj hb₁
  exact hn

/-! ### Plans -/

theorem verifies_stored_table (h : Stores c cells t bo) : t.defect? = none := by
  have ht := h.table
  unfold storedTable? at ht
  simpa [PartitionTable.verifies] using (Option.filter_eq_some_iff.mp ht).2

theorem Open.stores {slot : ℕ} (h : c.Open cells slot t b e) (hg : Guarded c cells) :
    Stores c cells t (some b) := by
  rw [← h.block]
  exact hg.stores h.table

/-- Saving a partition table for the sake of an entry is careful. -/
theorem Stores.save_entries (h : Stores c cells t bo) (hc : Compact c)
    (hd : Directory c cells.size t' ∧ placeOf? t' c.layout.blockName = placeOf? t c.layout.blockName)
    (hdef : t.defect? = none → t'.defect? = none) (hb : ∀ b, bo = some b → Boots t' b) :
    Careful c (c.tableChanges t') cells ∧ Stores c (afterAll (c.tableChanges t') cells) t' bo :=
  h.save_table hc hd.1 (by simp [PartitionTable.verifies, hdef (verifies_stored_table h)]) hd.2 hb

/-- It leaves the pointer block as it was. -/
theorem Guarded.save_table (hg : Guarded c cells) (hc : Compact c) (ht : c.storedTable? cells = some t)
    (hd : Directory c cells.size t' ∧ placeOf? t' c.layout.blockName = placeOf? t c.layout.blockName)
    (hdef : t.defect? = none → t'.defect? = none) (hb : ∀ b, Boots t b → Boots t' b) :
    Careful c (c.tableChanges t') cells ∧
      ∀ n, Slotted c n cells → Slotted c n (afterAll (c.tableChanges t') cells) := by
  have hs := hg.stores ht
  obtain ⟨hcare, hs'⟩ := hs.save_entries hc hd hdef fun b hbo => hb b (hs.boots b hbo)
  refine ⟨hcare, ?_⟩
  rintro n ⟨t₁, b₁, ht₁, hb₁, hn⟩
  obtain rfl := Option.some.inj (ht.symm.trans ht₁)
  rw [hb₁] at hs'
  exact hs'.slotted hn

/-- Taking an entry out of the pointer block and then out of the table is careful. -/
theorem Stores.delete (h : Stores c cells t (some b)) (hc : Compact c) (hu : e.isProtected = false)
    (hr : t.remove i = .ok (e, t')) :
    Careful c (c.disableChanges t b e.offset ++ c.tableChanges t') cells ∧
      Stores c (afterAll (c.disableChanges t b e.offset ++ c.tableChanges t') cells) t'
        (some (b.disable e.offset).2) := by
  obtain ⟨hcare, hs⟩ := h.disable hc e.offset
  obtain ⟨hcare', hs'⟩ := hs.save_entries hc (hs.directory.remove hu hr)
    (PartitionTable.remove_eq_ok hr).2.2 fun b₁ hb₁ => by
      obtain rfl := Option.some.inj hb₁
      exact (hs.boots _ rfl).remove (not_mem_disable _) hr
  rw [afterAll_append]
  exact ⟨hcare.append hcare', hs'⟩

/-- Taking pointers out of the block and adding them leaves as many slots. -/
theorem Stores.slotted_frames {cells' : ByteArray} {n : ℕ} (hs : Stores c cells t (some b))
    (hs' : Stores c cells' t' (some b')) (hb : b.Frames b') (hn : Slotted c n cells) : Slotted c n cells' := by
  refine hs'.slotted ?_
  rw [hb.slotCount_eq]
  exact hs.slots hn

/-- Once a slot has been taken out of the pointer block its contents may be changed, and what follows is
careful if it is careful whatever they are. -/
theorem Open.careful_contents {slot : ℕ} (changes : FlashPartition → List FlashChange)
    (rest : List FlashChange) (h : c.Open cells slot t b e) (hg : Guarded c cells) (hc : Compact c)
    (hin : ∀ p : FlashPartition, p.base = e.offset.toNat → p.length = e.length.toNat →
      ∀ change ∈ changes p, Within change e)
    (hrest : ∀ cells', Stores c cells' t (some (b.disable e.offset).2) →
      Careful c rest cells' ∧ Stores c (afterAll rest cells') t (some b'))
    (hb' : (b.disable e.offset).2.Frames b') {all : List FlashChange}
    (hall : all = c.disableChanges t b e.offset ++ contentChanges cells.size e fun p => changes p ++ rest) :
    Careful c all cells ∧ ∀ n, Slotted c n cells → Slotted c n (afterAll all cells) := by
  subst hall
  have hs := h.stores hg
  have hb := b.frames_disable e.offset
  -- three steps, each from what the one before leaves stored: the pointer, the contents, the rest
  obtain ⟨hcare, hs₁⟩ := hs.disable hc e.offset
  rw [afterAll_append]
  unfold contentChanges
  cases hl : FlashPartition.ofEntry cells.size e with
  | error fault => exact ⟨hcare.append hs₁.guarded, fun n => hs.slotted_frames hs₁ hb⟩
  | ok p =>
    obtain ⟨hbase, hlen, -⟩ := ofEntry_eq_ok hl
    obtain ⟨hcare₂, hs₂⟩ := hs₁.contents _ (List.mem_of_getElem? h.entry) h.mutable (not_mem_disable _)
      (hin p hbase hlen)
    obtain ⟨hcare₃, hs₃⟩ := hrest _ hs₂
    dsimp only
    rw [afterAll_append]
    exact ⟨hcare.append (hcare₂.append hcare₃), fun n => hs.slotted_frames hs₃ (hb.trans hb')⟩

/-- Whatever an operation has in mind is careful, and if it is all done both tables can be used if they
could before, and the pointer block has no fewer slots. -/
theorem Plans.careful {op : SlotOperation} {r : Except UpdateError Unit} (hc : Compact c)
    (hplan : Plans c cells op changes r) (hg : Guarded c cells) :
    Careful c changes cells ∧
      ∀ n ≤ maxPointers, Slotted c n cells → Slotted c n (afterAll changes cells) := by
  cases hplan with
  | refused op failure => exact ⟨hg, fun _ _ => id⟩
  | created table made fresh sized fits apart pushed =>
    obtain ⟨hcare, hn⟩ := hg.save_table hc table ((hg _ table).1.push made fresh sized fits apart pushed)
      (PartitionTable.push_eq_ok pushed).2.2 fun b hb => hb.push pushed
    exact ⟨hcare, fun n _ => hn n⟩
  | renamed table entry mutable fresh edited =>
    obtain ⟨-, -, -, -, -, hdef⟩ := PartitionTable.modifyEntry_eq_ok edited
    obtain ⟨hcare, hn⟩ := hg.save_table hc table ((hg _ table).1.rename entry mutable fresh edited) hdef
      fun b hb => hb.rename entry mutable edited
    exact ⟨hcare, fun n _ => hn n⟩
  | @deleted slot t t' b e opened removed =>
    have hs := opened.stores hg
    obtain ⟨hcare, hs'⟩ := hs.delete hc opened.mutable removed
    exact ⟨hcare, fun n _ => hs.slotted_frames hs' (b.frames_disable e.offset)⟩
  | @enabled slot t b e opened =>
    have hs := opened.stores hg
    obtain ⟨hcare, hs'⟩ := hs.enable hc (List.mem_of_getElem? opened.entry) opened.mutable
    exact ⟨hcare, fun n _ => hs.slotted_frames hs' (b.frames_enable e.offset)⟩
  | @disabled slot t b e opened =>
    have hs := opened.stores hg
    obtain ⟨hcare, hs'⟩ := hs.disable hc e.offset
    exact ⟨hcare, fun n _ => hs.slotted_frames hs' (b.frames_disable e.offset)⟩
  | @erased slot t b e opened =>
    -- the slot is no longer in the block by then, so its contents are nothing booted
    have hin (p : FlashPartition) (hbase : p.base = e.offset.toNat) (hlen : p.length = e.length.toNat) :
        ∀ change ∈ [FlashChange.erase p.base p.length], Within change e := by
      rw [hbase, hlen]
      exact List.forall_mem_singleton.mpr ⟨le_rfl, le_rfl⟩
    obtain ⟨hcare, hn⟩ := opened.careful_contents _ [] hg hc hin (fun _ hs => ⟨hs.guarded, hs⟩) (.refl _) rfl
    exact ⟨hcare, fun n _ => hn n⟩
  | @programmed kind slot image t b e opened nonempty fits =>
    have hin (p : FlashPartition) (hbase : p.base = e.offset.toNat) (hlen : p.length = e.length.toNat) :
        ∀ change ∈ [.erase p.base p.length, .write p.base image], Within change e := by
      rw [hbase, hlen]
      exact inside_replaceChanges fits
    by_cases hk : kind = .raw
    · rw [if_pos hk]
      obtain ⟨hcare, hn⟩ := opened.careful_contents _ [] hg hc hin (fun _ hs => ⟨hs.guarded, hs⟩) (.refl _) rfl
      exact ⟨hcare, fun n _ => hn n⟩
    · rw [if_neg hk]
      obtain ⟨hcare, hn⟩ := opened.careful_contents _ _ hg hc hin
        (fun _ hs => hs.enable hc (List.mem_of_getElem? opened.entry) opened.mutable)
        (PointerBlock.frames_enable _ e.offset) rfl
      exact ⟨hcare, fun n _ => hn n⟩
  | emptied table =>
    have hv : (PointerBlock.empty maxPointers).verifies = true := by decide
    obtain ⟨hcare, hs⟩ := (hg.stores table).save_block hc hv (boots_empty _ _)
    exact ⟨hcare, fun n hn _ => hs.slotted hn⟩

end RemoteUpdate.Session
