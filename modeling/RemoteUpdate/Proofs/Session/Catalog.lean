import RemoteUpdate.Proofs.Session.WellFormedness
import RemoteUpdate.Proofs.Table.BootOrder

/-!
# The tables as a catalog

What the two tables of a well-formed device say is a `Catalog`: its entries, the offsets to boot from in
order, and how many offsets there is room for. On a device that does not fail, an operation on the tables
does to the catalog what `Catalog.edit?` says, and a look at a slot is a look at the catalog. An operation
that `Catalog.edit?` refuses leaves the device as it was.
-/

namespace RemoteUpdate

variable {ρ : Type}

/-- What the tables of a device say. -/
structure Catalog where
  entries : List PartitionEntry
  /-- The offsets to boot from, first to boot first. -/
  boots : List UInt64
  /-- How many offsets there is room for. -/
  room : ℕ

/-- An operation on the tables alone. -/
inductive TableEdit where
  | create (name : String) (offset : UInt64) (size : UInt32)
  | delete (slot : ℕ)
  | rename (slot : ℕ) (name : String)
  | enable (slot : ℕ)
  | disable (slot : ℕ)

/-- The edit as an operation on slots. -/
def TableEdit.operation : TableEdit → SlotOperation
  | .create name offset size => .create name offset size
  | .delete slot => .delete slot
  | .rename slot name => .rename slot name
  | .enable slot => .enable slot
  | .disable slot => .disable slot

namespace Catalog

def slot? (k : Catalog) (slot : ℕ) : Option PartitionEntry :=
  k.entries[slot]?.filter fun e => !e.isProtected

def newEntry (name : String) (offset : UInt64) (size : UInt32) : PartitionEntry :=
  ({ offset, length := size, flags := 0 } : PartitionEntry).named name

/-- A slot can be added: its name can name an entry and is not taken, its range is a non-empty one of a
device with so many bytes and meets no entry, and the table is not full. -/
def Creatable (k : Catalog) (capacity : ℕ) (name : String) (offset : UInt64) (size : UInt32) : Prop :=
  PartitionEntry.Nameable name ∧
    (∀ e ∈ k.entries, e.nameBytes ≠ nameOf name) ∧
    0 < size.toNat ∧
    offset.toNat + size.toNat ≤ capacity ∧
    (∀ e ∈ k.entries, Cells.Apart offset.toNat size.toNat e.offset.toNat e.length.toNat) ∧
    k.entries.length < maxPartitions

instance (k : Catalog) (capacity : ℕ) (name : String) (offset : UInt64) (size : UInt32) :
    Decidable (k.Creatable capacity name offset size) :=
  inferInstanceAs (Decidable (_ ∧ _ ∧ _ ∧ _ ∧ _ ∧ _))

/-- A slot can get a name: the name can name an entry, and no other entry has it. -/
def Renamable (k : Catalog) (slot : ℕ) (name : String) : Prop :=
  PartitionEntry.Nameable name ∧ ∀ e ∈ k.entries.eraseIdx slot, e.nameBytes ≠ nameOf name

instance (k : Catalog) (slot : ℕ) (name : String) : Decidable (k.Renamable slot name) :=
  inferInstanceAs (Decidable (_ ∧ _))

/-- An offset can be the first to boot from: it is not zero, and there is room for it. -/
def Bootable (k : Catalog) (offset : UInt64) : Prop :=
  offset ≠ 0 ∧ 0 < k.room ∧ (offset ∈ k.boots ∨ k.boots.length < k.room)

instance (k : Catalog) (offset : UInt64) : Decidable (k.Bootable offset) :=
  inferInstanceAs (Decidable (_ ∧ _ ∧ (_ ∨ _)))

/-- The catalog after an edit of a device with so many bytes, unless the edit is refused. -/
def edit? (k : Catalog) (capacity : ℕ) : TableEdit → Option Catalog
  | .create name offset size =>
    if k.Creatable capacity name offset size then
      some { k with entries := k.entries ++ [newEntry name offset size] }
    else none
  | .delete slot => (k.slot? slot).map fun e =>
    { k with entries := k.entries.eraseIdx slot, boots := k.boots.filter (· != e.offset) }
  | .rename slot name => (k.slot? slot).bind fun e =>
    if k.Renamable slot name then some { k with entries := k.entries.set slot (e.named name) } else none
  | .enable slot => (k.slot? slot).bind fun e =>
    if k.Bootable e.offset then
      some { k with boots := e.offset :: k.boots.filter (· != e.offset) }
    else none
  | .disable slot => (k.slot? slot).map fun e =>
    { k with boots := k.boots.filter (· != e.offset) }

def after (k : Catalog) (capacity : ℕ) (edit : TableEdit) : Catalog :=
  (k.edit? capacity edit).getD k

/-- The rank of an offset in the boot order, 1 for the first to boot from, or 0. -/
def rank (k : Catalog) (offset : UInt64) : ℕ :=
  if offset ∈ k.boots then k.boots.idxOf offset + 1 else 0

theorem make_eq (name : String) (offset : UInt64) (size : UInt32) :
    PartitionEntry.make name offset size 0 =
      if PartitionEntry.Nameable name then .ok (newEntry name offset size)
      else .error .invalidArgument :=
  PartitionEntry.rename_eq _ name

theorem slot?_eq_some_iff {k : Catalog} {slot : ℕ} {e : PartitionEntry} :
    k.slot? slot = some e ↔ k.entries[slot]? = some e ∧ e.isProtected = false := by
  unfold slot?
  rw [Option.filter_eq_some_iff]
  simp

end Catalog

/-- The offset of an entry of a device with 64-bit addresses is not all ones. -/
theorem Listing.offset_ne_erased {capacity : ℕ} {l : List PartitionEntry} {e : PartitionEntry} (h : Listing capacity l)
    (he : e ∈ l) (hcap : capacity < UInt64.size) : e.offset ≠ erasedPointer := by
  intro heq
  have hpos := h.nonempty e he
  have htop := h.inside e he
  have : erasedPointer.toNat = UInt64.size - 1 := by decide
  unfold PartitionEntry.top at htop
  rw [heq] at htop
  omega

namespace Session

variable {c : Session ρ} {cells : ByteArray} {t t' t₁ : PartitionTable} {b b' b₁ : PointerBlock}
  {e : PartitionEntry} {changes : List FlashChange} {name : String} {offset : UInt64} {size : UInt32}
  {slot : ℕ} {k : Catalog}

/-! ### What the cells say -/

/-- What two tables say. -/
def catalogOf (t : PartitionTable) (b : PointerBlock) : Catalog where
  entries := t.listed
  boots := b.priorities
  room := b.slotCount.toNat

/-- What the stored tables say, if they can be used. -/
def catalog? (c : Session ρ) (cells : ByteArray) : Option Catalog :=
  (c.storedTable? cells).bind fun t => (c.storedBlock? cells t).map (catalogOf t)

theorem Stores.catalog?_eq (h : Stores c cells t (some b)) : c.catalog? cells = some (catalogOf t b) := by
  unfold catalog?
  rw [h.table, Option.bind_some, h.block, Option.map_some]

theorem size_eq_slotCount (h : Stores c cells t (some b)) : b.size = b.slotCount.toNat := by
  have hv : b.defect? = none := by
    have := verifies_of_stored h
    unfold PointerBlock.verifies at this
    simpa using this
  exact Nat.min_eq_left (PointerBlock.defect?_eq_none_iff.mp hv).2

theorem Stores.open (h : Stores c cells t (some b)) (hs : (catalogOf t b).slot? slot = some e) :
    c.Open cells slot t b e := by
  obtain ⟨he, hu⟩ := Catalog.slot?_eq_some_iff.mp hs
  exact ⟨h.table, h.block, he, hu⟩

theorem Open.slot? (h : c.Open cells slot t₁ b₁ e) (hs : Stores c cells t (some b)) :
    t₁ = t ∧ b₁ = b ∧ (catalogOf t b).slot? slot = some e := by
  obtain rfl := Option.some.inj (h.table.symm.trans hs.table)
  obtain rfl := Option.some.inj (h.block.symm.trans hs.block)
  exact ⟨rfl, rfl, Catalog.slot?_eq_some_iff.mpr ⟨h.entry, h.mutable⟩⟩

theorem not_open (hs : Stores c cells t (some b)) (hslot : (catalogOf t b).slot? slot = none) :
    ¬ c.Open cells slot t₁ b₁ e := by
  intro hopen
  obtain ⟨-, -, hsome⟩ := hopen.slot? hs
  rw [hslot] at hsome
  cases hsome

/-! ### When an edit is accepted -/

/-- A pointer can be put on top exactly if its offset is bootable. -/
theorem bootable_iff (hs : Stores c cells t (some b)) (he : offset ≠ erasedPointer) :
    (catalogOf t b).Bootable offset ↔ ¬ b.Unplaceable offset := by
  have hle := b.length_priorities_le
  rw [PointerBlock.unplaceable_iff_priorities, PointerBlock.isPointer_eq_false_iff]
  unfold Catalog.Bootable catalogOf
  dsimp only
  rw [← size_eq_slotCount hs]
  constructor
  · rintro ⟨hzero, hroom, hplace⟩ ((hc | hc) | hc | ⟨hfull, hno⟩)
    · exact hzero hc
    · exact he hc
    · omega
    · rcases hplace with hmem | hless
      · exact hno hmem
      · omega
  · intro h
    refine ⟨fun hz => h (.inl (.inl hz)), ?_, ?_⟩
    · by_contra hroom
      exact h (.inr (.inl (by omega)))
    · by_contra hplace
      rw [not_or] at hplace
      exact h (.inr (.inr ⟨by omega, hplace.1⟩))

/-- Putting a pointer on top succeeds if there is a place for it. -/
theorem placementResult_enable (h : ¬ b.Unplaceable offset) :
    placementResult (b.enable offset).1 = .ok () := by
  rcases b.enable_answer offset with ⟨hun, -⟩ | ⟨-, -, hr⟩ | ⟨-, -, hr⟩
  · exact absurd hun h
  · rw [hr]
    rfl
  · rw [hr]
    rfl

/-- A slot can be added exactly if all checks of a new slot pass. -/
theorem creatable_iff (hs : Stores c cells t (some b)) (hcap : cells.size < UInt64.size) :
    (catalogOf t b).Creatable cells.size name offset size ↔
      PartitionEntry.make name offset size 0 = .ok (Catalog.newEntry name offset size) ∧
        t.findName? name = none ∧ size ≠ 0 ∧
        (Catalog.newEntry name offset size).top ≤ cells.size ∧
        t.findOverlap offset size = .ok none ∧
        ∃ t', t.push (Catalog.newEntry name offset size) = .ok (t.listed.length, t') := by
  have hmake : PartitionEntry.make name offset size 0 = .ok (Catalog.newEntry name offset size) ↔
      PartitionEntry.Nameable name := by
    rw [Catalog.make_eq]
    constructor
    · intro h
      split at h
      · assumption
      · cases h
    · exact fun h => if_pos h
  rw [hmake, PartitionTable.findName?_eq_none_iff]
  constructor
  · -- the catalog compares tops without bound, and nothing within the device wraps around
    rintro ⟨hname, hfresh, hpos, hfit, hapart, hroom⟩
    refine ⟨hname, hfresh, ?_, hfit, ?_, PartitionTable.push_of_room hroom⟩
    · rintro rfl
      cases hpos
    · refine PartitionTable.firstOverlap_of_apart (by omega) ?_ hapart
      intro f hf
      have := hs.directory.inside f hf
      omega
  · rintro ⟨hname, hfresh, hpos, hfit, hapart, t', hpush⟩
    refine ⟨hname, hfresh, ?_, hfit, ?_, PartitionTable.room_of_push hpush⟩
    · exact Nat.pos_of_ne_zero fun h => hpos (UInt32.toNat_inj.mp h)
    · intro f hf
      have := PartitionTable.firstOverlap_eq_none hapart hf
      unfold PartitionEntry.top at this
      unfold Cells.Apart
      omega

/-- No other entry has the name exactly if the entry found under that name is the slot itself. -/
theorem no_other_named_iff {capacity : ℕ} (h : Listing capacity t.listed) (slot : ℕ) (name : String) :
    (∀ f ∈ t.listed.eraseIdx slot, f.nameBytes ≠ nameOf name) ↔
      ∀ other, t.findName? name = some other → other = slot := by
  constructor
  · intro hno other hother
    obtain ⟨f, hf, hname⟩ := PartitionTable.findName?_eq_some hother
    by_contra hne
    exact hno f (List.mem_eraseIdx_iff_getElem?.mpr ⟨other, hne, hf⟩) hname
  · intro hfound f hf hname
    obtain ⟨j, hj, hjf⟩ := List.mem_eraseIdx_iff_getElem?.mp hf
    cases hn : t.findName? name with
    | none =>
      exact PartitionTable.findName?_eq_none_iff.mp hn f (List.mem_of_getElem? hjf) hname
    | some other =>
      obtain ⟨g, hg, hgname⟩ := PartitionTable.findName?_eq_some hn
      have hlen : j < (t.listed.map PartitionEntry.nameBytes).length := by
        rw [List.length_map]
        exact (List.getElem?_eq_some_iff.mp hjf).1
      have : j = other := by
        refine (List.getElem?_inj hlen h.names).mp ?_
        rw [List.getElem?_map, List.getElem?_map, hjf, hg, Option.map_some, Option.map_some, hname,
          hgname]
      exact hj (this.trans (hfound other hn))

/-! ### Operations that are not refused -/

section Performs

variable {φ : Type} [FlashDevice φ] [KeepsCells φ] {s : SessionState ρ φ}

theorem performs_createSlot {n : ℕ} (ht : c.storedTable? (KeepsCells.cells s.flash) = some t)
    (made : PartitionEntry.make name offset size 0 = .ok e) (fresh : t.findName? name = none)
    (sized : size ≠ 0) (stop : e.stop = .ok n) (fits : n ≤ (KeepsCells.cells s.flash).size)
    (apart : t.findOverlap offset size = .ok none) (pushed : t.push e = .ok (slot, t')) :
    Performs (c.createSlot name offset size) s (c.tableChanges t') (.ok slot) t' s.block := by
  refine Performs.after (b := s.block) (ends_loadTable ht) ?_
  rw [made]
  refine Performs.after_same (ends_require _ _) ?_
  dsimp only
  rw [fresh, if_neg (by decide), if_neg sized]
  refine Performs.after_same (Ends.get _) ?_
  rw [stop]
  refine Performs.after_same (ends_require _ _) ?_
  rw [KeepsCells.capacity_eq, if_neg (by simpa using fits), apart]
  refine Performs.after_same (ends_require _ _) ?_
  dsimp only
  rw [pushed]
  refine Performs.after_same (ends_require _ _) ?_
  refine Performs.after (t := t') (b := s.block) (Ends.modify _ _) ?_
  exact (performs_saveTable c _).andThen fun _ => (ends_log _ _).bind (Ends.pure _ _)

theorem createSlot_accepted (name : String) (offset : UInt64) (size : UInt32) (hc : Compact c)
    (hs : Stores c (KeepsCells.cells s.flash) t (some b))
    (hcap : (KeepsCells.cells s.flash).size < UInt64.size)
    (hcan : (catalogOf t b).Creatable (KeepsCells.cells s.flash).size name offset size) :
    ∃ t', Performs (c.createSlot name offset size) s (c.tableChanges t') (.ok t.listed.length)
        t' s.block ∧
      Careful c (c.tableChanges t') (KeepsCells.cells s.flash) ∧
      Stores c (afterAll (c.tableChanges t') (KeepsCells.cells s.flash)) t' (some b) ∧
      t'.listed = t.listed ++ [Catalog.newEntry name offset size] := by
  obtain ⟨made, fresh, sized, fits, apart, t', pushed⟩ := (creatable_iff hs hcap).mp hcan
  obtain ⟨-, hl, hdef⟩ := PartitionTable.push_eq_ok pushed
  obtain ⟨hcare, hs'⟩ := hs.save_entries hc
    (hs.directory.push made fresh sized fits apart pushed) hdef
    fun b' hb' => (hs.boots b' hb').push pushed
  have stop := PartitionTable.stop_of_lt (Nat.lt_of_le_of_lt fits hcap)
  exact ⟨t', performs_createSlot hs.table made fresh sized stop fits apart pushed, hcare, hs', hl⟩

theorem performs_renameSlot (ht : c.storedTable? (KeepsCells.cells s.flash) = some t)
    (he : t.listed[slot]? = some e) (hu : e.isProtected = false)
    (fresh : ∀ other, t.findName? name = some other → other = slot)
    (edited : t.modifyEntry slot (·.rename name) = .ok t') :
    Performs (c.renameSlot slot name) s (c.tableChanges t') (.ok ()) t' s.block := by
  refine Performs.after (b := s.block) (ends_loadTable ht) ?_
  refine Performs.after_same (ends_mutableEntry (s := { s with table := t }) he hu) ?_
  have save : Performs (do
      let table ← require (t.modifyEntry slot (·.rename name))
      modify fun s => { s with table }
      c.saveTable
      log (.slotRenamed slot e.nameText name)) { s with table := t } (c.tableChanges t') (.ok ())
        t' s.block := by
    rw [edited]
    refine Performs.after_same (ends_require _ _) ?_
    refine Performs.after (t := t') (b := s.block) (Ends.modify _ _) ?_
    exact (performs_saveTable c _).andThen fun _ => ends_log _ _
  dsimp only
  cases hn : t.findName? name with
  | none => exact save
  | some other =>
    dsimp only
    rw [if_neg (by simpa using fresh other hn)]
    exact save

end Performs

/-! ### Edits on a device that does not fail -/

variable {s : SessionState ρ EmulatedFlash}

/-- The program succeeds and the device then shows the catalog; or, if there is none, the program is refused
and the device stays as it was. -/
def Realizes (c : Session ρ) (x : SessionM ρ EmulatedFlash Unit) (s : SessionState ρ EmulatedFlash) :
    Option Catalog → Prop
  | some k => ∃ s', Ends x s (.ok ()) s' ∧ WellFormed c s'.flash.cells ∧
      c.catalog? s'.flash.cells = some k ∧ s'.flash.failing = false ∧
      s'.flash.cells.size = s.flash.cells.size
  | none => ∃ e s', Ends x s (.error e) s' ∧ s'.flash = s.flash

/-- Careful changes are all made. -/
theorem ends_of_careful {α : Type} {x : SessionM ρ EmulatedFlash α} {r : Except UpdateError α}
    (hp : Performs x s changes r t₁ b₁) (hcare : Careful c changes s.flash.cells)
    (hf : s.flash.failing = false) : ∃ s', Ends x s r s' ∧
      s'.flash.cells = afterAll changes s.flash.cells ∧ s'.flash.failing = false := by
  obtain ⟨f, hends, hafter⟩ := hp.ends_of_fits hf hcare.fits
  exact ⟨_, hends, hafter⟩

theorem realizes_some {x : SessionM ρ EmulatedFlash Unit} (hp : Performs x s changes (.ok ()) t₁ b₁)
    (hcare : Careful c changes s.flash.cells)
    (hs : Stores c (afterAll changes s.flash.cells) t (some b)) (hf : s.flash.failing = false)
    (hk : catalogOf t b = k) : Realizes c x s (some k) := by
  obtain ⟨s', hends, hcells, hf'⟩ := ends_of_careful hp hcare hf
  rw [← hcells] at hs
  subst hk
  refine ⟨s', hends, hs.wellFormed, hs.catalog?_eq, hf', ?_⟩
  rw [hcells, hcare.size_after]

theorem realizes_none {x : SessionM ρ EmulatedFlash Unit} {failure : UpdateError}
    (hp : Performs x s [] (.error failure) t₁ b₁) : Realizes c x s none :=
  ⟨failure, _, hp, rfl⟩

section Edits

variable (hc : Compact c) (hs : Stores c s.flash.cells t (some b)) (hf : s.flash.failing = false)
  (hcap : s.flash.cells.size < UInt64.size)
include hc hs hf

include hcap in
theorem realizes_create (name : String) (offset : UInt64) (size : UInt32) :
    Realizes c (c.perform (.create name offset size)) s
      ((catalogOf t b).edit? s.flash.cells.size (.create name offset size)) := by
  rw [Catalog.edit?]
  by_cases hcan : (catalogOf t b).Creatable s.flash.cells.size name offset size
  · rw [if_pos hcan]
    obtain ⟨t', hp, hcare, hs', hl⟩ := createSlot_accepted (s := s) name offset size hc hs hcap hcan
    refine realizes_some (hp.andThen fun _ => Ends.pure _ _) hcare hs' hf ?_
    unfold catalogOf
    rw [hl]
  · rw [if_neg hcan]
    obtain ⟨changes, r, t₁, b₁, hp, hplan⟩ := perform_follows c s (.create name offset size)
    cases hplan with
    | refused op failure => exact realizes_none hp
    | created table made fresh sized fits apart pushed =>
      obtain rfl := Option.some.inj (hs.table.symm.trans table)
      have hmade := made
      rw [Catalog.make_eq] at hmade
      split at hmade
      · obtain rfl := Except.ok.inj hmade
        obtain ⟨rfl, -⟩ := PartitionTable.push_eq_ok pushed
        exact absurd ((creatable_iff hs hcap).mpr ⟨made, fresh, sized, fits, apart, _, pushed⟩) hcan
      · cases hmade

theorem realizes_delete (slot : ℕ) : Realizes c (c.perform (.delete slot)) s
    ((catalogOf t b).edit? s.flash.cells.size (.delete slot)) := by
  rw [Catalog.edit?]
  cases hslot : (catalogOf t b).slot? slot with
  | some e =>
    have hopen := hs.open hslot
    obtain ⟨t', hr⟩ := PartitionTable.remove_of_listed hopen.entry
    obtain ⟨hcare, hs'⟩ := hs.delete hc hopen.mutable hr
    refine realizes_some (performs_deleteSlot hopen hr) hcare hs' hf ?_
    unfold catalogOf
    rw [(PartitionTable.remove_eq_ok hr).2.1, PointerBlock.priorities_disable,
      (PointerBlock.frames_disable b e.offset).slotCount_eq]
  | none =>
    obtain ⟨changes, r, t₁, b₁, hp, hplan⟩ := perform_follows c s (.delete slot)
    cases hplan with
    | refused op failure => exact realizes_none hp
    | deleted opened removed => exact absurd opened (not_open hs hslot)

theorem realizes_rename (slot : ℕ) (name : String) : Realizes c (c.perform (.rename slot name)) s
    ((catalogOf t b).edit? s.flash.cells.size (.rename slot name)) := by
  have hfresh := no_other_named_iff hs.directory.toListing slot name
  rw [Catalog.edit?]
  -- the catalog grants the edit exactly if the slot is open and the name is free
  by_cases hcan : ∃ e, (catalogOf t b).slot? slot = some e ∧ (catalogOf t b).Renamable slot name
  · obtain ⟨e, hslot, hren⟩ := hcan
    obtain ⟨hname, hno⟩ := hren
    obtain ⟨he, hu⟩ := Catalog.slot?_eq_some_iff.mp hslot
    have hedit : e.rename name = .ok (e.named name) := by rw [PartitionEntry.rename_eq, if_pos hname]
    obtain ⟨t', edited⟩ : ∃ t', t.modifyEntry slot (·.rename name) = .ok t' :=
      PartitionTable.modifyEntry_of_listed he hedit
    have fresh := hfresh.mp hno
    obtain ⟨e₁, e', he₁, hedit', hl, hdef⟩ := PartitionTable.modifyEntry_eq_ok edited
    obtain rfl := Option.some.inj (he.symm.trans he₁)
    obtain rfl := Except.ok.inj (hedit.symm.trans hedit')
    obtain ⟨hcare, hs'⟩ := hs.save_entries hc (hs.directory.rename he hu fresh edited) hdef
      fun b' hb' => (hs.boots b' hb').rename he hu edited
    rw [hslot, Option.bind_some, if_pos ⟨hname, hno⟩]
    refine realizes_some (performs_renameSlot hs.table he hu fresh edited) hcare hs' hf ?_
    unfold catalogOf
    rw [hl]
  · have hnone : ((catalogOf t b).slot? slot).bind (fun e =>
        if (catalogOf t b).Renamable slot name then
          some { catalogOf t b with entries := (catalogOf t b).entries.set slot (e.named name) }
        else none) = none := by
      rw [Option.bind_eq_none_iff]
      intro e hslot
      exact if_neg fun hren => hcan ⟨e, hslot, hren⟩
    rw [hnone]
    obtain ⟨changes, r, t₁, b₁, hp, hplan⟩ := perform_follows c s (.rename slot name)
    cases hplan with
    | refused op failure => exact realizes_none hp
    | renamed table entry mutable fresh edited =>
      obtain rfl := Option.some.inj (hs.table.symm.trans table)
      obtain ⟨e₁, e', he₁, hedit, -, -⟩ := PartitionTable.modifyEntry_eq_ok edited
      have hname : PartitionEntry.Nameable name := by
        rw [PartitionEntry.rename_eq] at hedit
        split at hedit
        · assumption
        · cases hedit
      exact absurd ⟨_, Catalog.slot?_eq_some_iff.mpr ⟨entry, mutable⟩, hname, hfresh.mpr fresh⟩ hcan

include hcap in
theorem realizes_enable (slot : ℕ) : Realizes c (c.perform (.enable slot)) s
    ((catalogOf t b).edit? s.flash.cells.size (.enable slot)) := by
  rw [Catalog.edit?]
  cases hslot : (catalogOf t b).slot? slot with
  | some e =>
    have hopen := hs.open hslot
    have he := List.mem_of_getElem? hopen.entry
    obtain ⟨place, hplace⟩ := hopen.place
    have hp := hopen.performs
      (performs_enablePointer (s := { s with table := t, block := b }) slot e hplace)
    have hboot := bootable_iff hs (hs.directory.toListing.offset_ne_erased he hcap)
    rw [Option.bind_some]
    by_cases hcan : (catalogOf t b).Bootable e.offset
    · have hun := hboot.mp hcan
      obtain ⟨hcare, hs'⟩ := hs.enable hc he hopen.mutable
      dsimp only at hp
      rw [placementResult_enable hun] at hp
      rw [if_pos hcan]
      refine realizes_some hp hcare hs' hf ?_
      unfold catalogOf
      rw [PointerBlock.priorities_enable (hs.boots b rfl).distinct hun,
        (PointerBlock.frames_enable b e.offset).slotCount_eq]
    · rw [if_neg hcan]
      have hun : b.Unplaceable e.offset := by
        by_contra hun
        exact hcan (hboot.mpr hun)
      obtain ⟨failure, herror⟩ := PointerBlock.enable_eq_error_iff.mpr hun
      unfold enableChanges at hp
      dsimp only at hp
      rw [herror] at hp
      exact realizes_none hp
  | none =>
    -- a slot that the catalog does not show cannot be opened
    obtain ⟨changes, r, t₁, b₁, hp, hplan⟩ := perform_follows c s (.enable slot)
    cases hplan with
    | refused op failure => exact realizes_none hp
    | enabled opened => exact absurd opened (not_open hs hslot)

theorem realizes_disable (slot : ℕ) : Realizes c (c.perform (.disable slot)) s
    ((catalogOf t b).edit? s.flash.cells.size (.disable slot)) := by
  rw [Catalog.edit?]
  cases hslot : (catalogOf t b).slot? slot with
  | some e =>
    have hopen := hs.open hslot
    obtain ⟨place, hplace⟩ := hopen.place
    have hp := hopen.performs
      (performs_disablePointer (s := { s with table := t, block := b }) slot e hplace)
    obtain ⟨hcare, hs'⟩ := hs.disable hc e.offset
    refine realizes_some hp hcare hs' hf ?_
    unfold catalogOf
    rw [PointerBlock.priorities_disable, (PointerBlock.frames_disable b e.offset).slotCount_eq]
  | none =>
    obtain ⟨changes, r, t₁, b₁, hp, hplan⟩ := perform_follows c s (.disable slot)
    cases hplan with
    | refused op failure => exact realizes_none hp
    | disabled opened => exact absurd opened (not_open hs hslot)

include hcap in
theorem realizes_edit (edit : TableEdit) : Realizes c (c.perform edit.operation) s
    ((catalogOf t b).edit? s.flash.cells.size edit) := by
  cases edit with
  | create name offset size => exact realizes_create hc hs hf hcap name offset size
  | delete slot => exact realizes_delete hc hs hf slot
  | rename slot name => exact realizes_rename hc hs hf slot name
  | enable slot => exact realizes_enable hc hs hf hcap slot
  | disable slot => exact realizes_disable hc hs hf slot

end Edits

/-- A well-formed device says something, and stores it. -/
theorem WellFormed.catalog (h : WellFormed c cells) (hk : c.catalog? cells = some k) :
    ∃ t b, Stores c cells t (some b) ∧ catalogOf t b = k := by
  obtain ⟨t, b, hs⟩ := h.stores
  exact ⟨t, b, hs, Option.some.inj (hs.catalog?_eq.symm.trans hk)⟩

/-- One edit, accepted or refused. -/
theorem perform_after (hc : Compact c) (edit : TableEdit) (h : WellFormed c s.flash.cells)
    (hk : c.catalog? s.flash.cells = some k) (hf : s.flash.failing = false)
    (hcap : s.flash.cells.size < UInt64.size) :
    ∃ r s', Ends (c.perform edit.operation) s r s' ∧ WellFormed c s'.flash.cells ∧
      c.catalog? s'.flash.cells = some (k.after s.flash.cells.size edit) ∧
      s'.flash.failing = false ∧ s'.flash.cells.size = s.flash.cells.size := by
  obtain ⟨t, b, hs, rfl⟩ := h.catalog hk
  have hedit := realizes_edit hc hs hf hcap edit
  unfold Catalog.after
  cases hafter : (catalogOf t b).edit? s.flash.cells.size edit with
  | some k' =>
    rw [hafter] at hedit
    obtain ⟨s', hends, hrest⟩ := hedit
    exact ⟨_, s', hends, hrest⟩
  | none =>
    rw [hafter] at hedit
    obtain ⟨failure, s', hends, hsame⟩ := hedit
    refine ⟨_, s', hends, ?_⟩
    rw [hsame]
    exact ⟨h, hk, hf, rfl⟩

theorem performAll_after (hc : Compact c) (edits : List TableEdit) (h : WellFormed c s.flash.cells)
    (hk : c.catalog? s.flash.cells = some k) (hf : s.flash.failing = false)
    (hcap : s.flash.cells.size < UInt64.size) :
    ∃ s', Returns (c.performAll (edits.map TableEdit.operation)) s () s' ∧
      WellFormed c s'.flash.cells ∧
      c.catalog? s'.flash.cells =
        some (edits.foldl (fun k edit => k.after s.flash.cells.size edit) k) := by
  induction edits generalizing s k with
  | nil => exact ⟨s, Returns.pure () s, h, hk⟩
  | cons edit edits ih =>
    obtain ⟨r, s₁, hends, h₁, hk₁, hf₁, hsize⟩ := perform_after hc edit h hk hf hcap
    obtain ⟨s', hrun, h', hk'⟩ := ih h₁ hk₁ hf₁ (by rwa [hsize])
    rw [hsize] at hk'
    exact ⟨s', performAll_cons hends hrun, h', hk'⟩

/-! ### Looking at slots -/

/-- What is looked for, or the error that it is not there. -/
def orNotFound {α : Type} : Option α → Except UpdateError α
  | some a => .ok a
  | none => .error .notFound

/-- Looking at slots is looking at the catalog, and changes no flash. -/
structure Answers (c : Session ρ) (s : SessionState ρ EmulatedFlash) (k : Catalog) : Prop where
  count : ∃ s', Ends c.slotCount s (.ok k.entries.length) s' ∧ s'.flash = s.flash
  byName : ∀ name, ∃ s', Ends (c.slotByName name) s
    (orNotFound (k.entries.findIdx? (·.isNamed name))) s' ∧ s'.flash = s.flash
  info : ∀ slot, ∃ s', Ends (c.slotInfo slot) s
    (orNotFound (k.entries[slot]?.map fun e =>
      { name := e.nameText, offset := e.offset, size := e.length, priority := k.rank e.offset })) s' ∧
    s'.flash = s.flash
  size : ∀ slot, ∃ s', Ends (c.slotSize slot) s
    (orNotFound (k.entries[slot]?.map PartitionEntry.length)) s' ∧ s'.flash = s.flash
  priority : ∀ slot, ∃ s', Ends (c.slotPriority slot) s
    (orNotFound (k.entries[slot]?.map fun e => k.rank e.offset)) s' ∧ s'.flash = s.flash

theorem ends_found {φ α : Type} (o : Option α) (s : SessionState ρ φ) :
    Ends (found o) s (orNotFound o) s := by
  cases o with
  | some a => exact Ends.pure a s
  | none => exact Ends.throw _ s

theorem ends_look {φ α : Type} {load : SessionM ρ φ Unit} {look : PartitionEntry → SessionM ρ φ α}
    {s s₁ : SessionState ρ φ} (view : PartitionEntry → α) (slot : ℕ) (hload : Ends load s (.ok ()) s₁)
    (hlook : ∀ e, Ends (look e) s₁ (.ok (view e)) s₁) :
    Ends (do load; look (← slotEntry slot)) s (orNotFound (s₁.table.listed[slot]?.map view)) s₁ := by
  have hentry := ends_slotEntry slot s₁
  unfold PartitionTable.entry at hentry
  refine hload.bind ?_
  cases he : s₁.table.listed[slot]? with
  | some e =>
    rw [he] at hentry
    exact hentry.bind (hlook e)
  | none =>
    rw [he] at hentry
    exact hentry.bind_error

theorem answers (hs : Stores c s.flash.cells t (some b)) : Answers c s (catalogOf t b) := by
  have hload : Ends c.load s (.ok ()) { s with table := t, block := b } := ends_load hs.table hs.block
  have htable : Ends c.loadTable s (.ok t) { s with table := t } := ends_loadTable hs.table
  -- the catalog keeps the list of pointers and not the block, but a rank comes from the list
  have hrank : (catalogOf t b).rank = b.rank := by
    funext offset
    exact PointerBlock.rank_eq.symm
  constructor
  · refine ⟨{ s with table := t }, htable.bind ?_, rfl⟩
    rw [← PartitionTable.length_listed]
    exact Ends.pure _ _
  · intro name
    exact ⟨{ s with table := t }, htable.bind (ends_found _ _), rfl⟩
  · intro slot
    have hlook (e : PartitionEntry) : Ends (do
        return {
          name := e.nameText
          offset := e.offset
          size := e.length
          priority := (← get).block.rank e.offset } : SessionM ρ EmulatedFlash SlotInfo)
        { s with table := t, block := b } (.ok ⟨e.nameText, e.offset, e.length, b.rank e.offset⟩)
        { s with table := t, block := b } := (Ends.get _).bind (Ends.pure _ _)
    have hends := ends_look _ slot hload hlook
    rw [hrank]
    exact ⟨_, hends, rfl⟩
  · intro slot
    have hlook := ends_look PartitionEntry.length slot htable.discard_ok fun e => Ends.pure _ _
    exact ⟨_, hlook, rfl⟩
  · intro slot
    have hlook (e : PartitionEntry) : Ends (do
        return (← get).block.rank e.offset : SessionM ρ EmulatedFlash ℕ)
        { s with table := t, block := b } (.ok (b.rank e.offset))
        { s with table := t, block := b } := (Ends.get _).bind (Ends.pure _ _)
    have hends := ends_look _ slot hload hlook
    rw [hrank]
    exact ⟨_, hends, rfl⟩

/-! ### Refinement -/

/-- On a well-formed device that does not fail, edits of the tables are edits of the catalog: each is
accepted exactly when the catalog accepts it, a new slot gets the next index, slots look like their entries,
and a run of edits leaves what the edits one by one leave of the catalog. -/
theorem performs_edits (c : Session ρ) (hc : Compact c) (s : SessionState ρ EmulatedFlash) (k : Catalog)
    (h : WellFormed c s.flash.cells) (hk : c.catalog? s.flash.cells = some k)
    (hf : s.flash.failing = false) (hcap : s.flash.cells.size < UInt64.size) :
    (∀ edit : TableEdit,
      Realizes c (c.perform edit.operation) s (k.edit? s.flash.cells.size edit)) ∧
    (∀ name offset size,
      (∃ s', Ends (c.createSlot name offset size) s (.ok k.entries.length) s') ↔
        k.Creatable s.flash.cells.size name offset size) ∧
    Answers c s k ∧
    ∀ edits : List TableEdit, ∃ s', Returns (c.performAll (edits.map TableEdit.operation)) s () s' ∧
      WellFormed c s'.flash.cells ∧
      c.catalog? s'.flash.cells =
        some (edits.foldl (fun k edit => k.after s.flash.cells.size edit) k) := by
  obtain ⟨t, b, hs, rfl⟩ := h.catalog hk
  refine ⟨realizes_edit hc hs hf hcap, ?_, answers hs, fun edits => performAll_after hc edits h hk hf hcap⟩
  intro name offset size
  constructor
  · rintro ⟨s', hends⟩
    -- an edit that the catalog does not grant ends in an error, so this call would end in two ways
    by_contra hcan
    have hrefused := realizes_edit hc hs hf hcap (.create name offset size)
    rw [Catalog.edit?, if_neg hcan] at hrefused
    obtain ⟨failure, _, herror, -⟩ := hrefused
    cases (hends.discard_ok.unique herror).1
  · intro hcan
    obtain ⟨t', hp, hcare, -, -⟩ := createSlot_accepted (s := s) name offset size hc hs hcap hcan
    obtain ⟨s', hends, -⟩ := ends_of_careful hp hcare hf
    exact ⟨s', hends⟩

def plainState : SessionState Unit EmulatedFlash where
  channel := { registers := () }
  flash := plainFlash

def plainCatalog : Catalog := catalogOf FlashPlan.plain.table FlashPlan.plain.block

/-- Two slots are added and booted; a third one overlaps the second and is refused; then the first is
renamed and the second removed. -/
theorem performs_edits_plain :
    WellFormed plainSession plainState.flash.cells ∧
      plainSession.catalog? plainState.flash.cells = some plainCatalog ∧
      plainState.flash.failing = false ∧ plainState.flash.cells.size < UInt64.size ∧
      ∃ s' k, Returns (plainSession.performAll ([.create "APP" 0x120000 0x1000,
          .create "NEXT" 0x121000 0x1000, .enable 6, .enable 7, .create "LATE" 0x121800 0x1000,
          .rename 6 "FIRST", .delete 7].map TableEdit.operation)) plainState () s' ∧
        plainSession.catalog? s'.flash.cells = some k ∧
        k.entries.drop 6 = [Catalog.newEntry "FIRST" 0x120000 0x1000] ∧ k.boots = [0x120000] := by
  have hk : plainSession.catalog? plainState.flash.cells = some plainCatalog :=
    stores_plainFlash.catalog?_eq
  have hcap : plainState.flash.cells.size < UInt64.size := by
    rw [plainState, size_plainFlash]
    decide
  refine ⟨wellFormed_plainFlash, hk, failing_plainFlash, hcap, ?_⟩
  obtain ⟨-, -, -, hrun⟩ := performs_edits plainSession compact_plainSession plainState plainCatalog
    wellFormed_plainFlash hk failing_plainFlash hcap
  obtain ⟨s', hreturns, -, hcatalog⟩ := hrun [.create "APP" 0x120000 0x1000,
    .create "NEXT" 0x121000 0x1000, .enable 6, .enable 7, .create "LATE" 0x121800 0x1000,
    .rename 6 "FIRST", .delete 7]
  have hsize : plainState.flash.cells.size = 0x140000 := size_plainFlash
  rw [hsize] at hcatalog
  refine ⟨s', _, hreturns, hcatalog, ?_, ?_⟩
  · decide +kernel
  · decide +kernel

end Session

end RemoteUpdate
