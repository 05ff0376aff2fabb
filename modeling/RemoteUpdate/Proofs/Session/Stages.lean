import RemoteUpdate.Proofs.Session.Copies
import RemoteUpdate.Proofs.Table.BootOrder

/-!
# The stages of an operation

Whatever an operation has in mind is a sequence of stages: saving both copies of a partition table, saving
both copies of a pointer block, and changing the contents of a slot. Each stage of a `Course` is sound for
what is stored when it begins: a table that is saved lists the pointers of the stored block, and so is a
block that is saved listed by the stored table.
-/

namespace RemoteUpdate

namespace SlotOperation

/-- The operation saves the partition table when it succeeds. -/
def savesTable : SlotOperation → Bool
  | .create .. | .delete _ | .rename .. => true
  | _ => false

/-- The operation saves the pointer block when it succeeds, whatever the block holds. -/
def savesBlock : SlotOperation → Bool
  | .program kind _ _ => kind != .raw
  | .createEmptyBlock => true
  | _ => false

/-- The operation is refused without a pointer block. -/
def needsBlock : SlotOperation → Bool
  | .create .. | .rename .. | .createEmptyBlock => false
  | _ => true

end SlotOperation

/-- The block that is saved to take a pointer out, if that changes it. -/
def PointerBlock.takenOut (b : PointerBlock) (p : UInt64) : List PointerBlock :=
  if (b.disable p).1 then [(b.disable p).2] else []

/-- The block that is saved to put a pointer on top, if that changes it. -/
def PointerBlock.putOnTop (b : PointerBlock) (p : UInt64) : List PointerBlock :=
  match (b.enable p).1 with
  | .ok true => [(b.enable p).2]
  | _ => []

namespace Session

variable {ρ : Type} {c : Session ρ} {cells : ByteArray} {t t' : PartitionTable} {b b' : PointerBlock}
  {e : PartitionEntry} {removed : Option PartitionEntry} {size : ℕ} {site : Copy → UInt64}
  {bo : Option PointerBlock}

/-! ### Pointers to entries -/

/-- Each pointer is the offset of an entry that is not protected. -/
def Bootable (t : PartitionTable) (b : PointerBlock) : Prop :=
  ∀ p ∈ b.priorities, ∃ e ∈ t.listed, e.offset = p ∧ e.isProtected = false

/-- Entries may come and change, and go if no pointer is their offset. -/
theorem Bootable.succeed (h : Bootable t b) (hs : Succeeds t t' removed)
    (hr : ∀ e, removed = some e → e.offset ∉ b.priorities) : Bootable t' b := by
  intro p hp
  obtain ⟨e, he, rfl, hu⟩ := h p hp
  obtain ⟨f, hf, ho, -, hflags, -⟩ := hs e he fun hre => hr e hre hp
  exact ⟨f, hf, ho, (PartitionEntry.isProtected_congr hflags).trans hu⟩

theorem Bootable.disable (h : Bootable t b) (p : UInt64) : Bootable t (b.disable p).2 := by
  intro q hq
  rw [PointerBlock.priorities_disable] at hq
  exact h q (List.mem_of_mem_filter hq)

theorem Bootable.enable (h : Bootable t b) (he : e ∈ t.listed) (hu : e.isProtected = false)
    (hb : b.enable e.offset = (.ok true, b')) : Bootable t b' := by
  intro p hp
  rw [(PointerBlock.enable_changed hb).1] at hp
  rcases List.mem_cons.mp hp with rfl | hp
  · exact ⟨e, he, rfl, hu⟩
  · exact h p (List.mem_of_mem_filter hp)

theorem bootable_empty (t : PartitionTable) (n : ℕ) : Bootable t (.empty n) := by
  intro p hp
  rw [priorities_empty] at hp
  cases hp

/-- As far as both tables can be used, the partition table is good and lists the pointers. -/
def Anchored (c : Session ρ) (size : ℕ) (site : Copy → UInt64) (w : Copy → List UInt8) : Prop :=
  ∀ t, tableIn? (w .table) = some t →
    Sited c size t site ∧ ∀ b, blockIn? (w .block) = some b → Bootable t b

/-! ### Stages -/

/-- A stage of an operation. -/
inductive Stage where
  | table (t : PartitionTable)
  | block (b : PointerBlock)
  | contents (changes : List FlashChange)

def Stage.changes (site : Copy → UInt64) : Stage → List FlashChange
  | .table t => save site .tableBackup .table t.encode
  | .block b => save site .block .blockBackup b.encode
  | .contents changes => changes

/-- What the windows hold after a stage. -/
def Stage.on (w : Copy → List UInt8) : Stage → Copy → List UInt8
  | .table t => saved w .tableBackup .table t.encode
  | .block b => saved w .block .blockBackup b.encode
  | .contents _ => w

/-- The stages are sound one after the other, from a stored table and a stored block, if there is one. -/
inductive Course (c : Session ρ) (size : ℕ) (site : Copy → UInt64) :
    PartitionTable → Option PointerBlock → List Stage → Prop
  | done (t : PartitionTable) (bo : Option PointerBlock) : Course c size site t bo []
  | table {t t' : PartitionTable} {bo : Option PointerBlock} {stages : List Stage}
      (sited : Sited c size t' site) (verifies : t'.verifies = true)
      (boots : ∀ b, bo = some b → Bootable t' b) (rest : Course c size site t' bo stages) :
      Course c size site t bo (.table t' :: stages)
  | block {t : PartitionTable} {bo : Option PointerBlock} {b : PointerBlock} {stages : List Stage}
      (verifies : b.verifies = true) (boots : Bootable t b)
      (rest : Course c size site t (some b) stages) : Course c size site t bo (.block b :: stages)
  | contents {t : PartitionTable} {bo : Option PointerBlock} {e : PartitionEntry}
      {changes : List FlashChange} {stages : List Stage} (listed : e ∈ t.listed)
      (mutable : e.isProtected = false) (within : ∀ change ∈ changes, Within change e)
      (rest : Course c size site t bo stages) : Course c size site t bo (.contents changes :: stages)

theorem Course.held_after {stages : List Stage} (h : Course c size site t bo stages)
    (hsited : Sited c size t site) (hs : size = cells.size) :
    held site (afterAll (stages.flatMap (·.changes site)) cells) =
      stages.foldl Stage.on (held site cells) := by
  induction h generalizing cells with
  | done => rfl
  | @table t t' bo stages sited verifies boots rest ih =>
    obtain ⟨hm, hheld⟩ := meets_save (P := fun _ _ => True) .tableBackup .table hsited hs
      t'.length_encode rfl trivial trivial trivial trivial
    rw [List.flatMap_cons, afterAll_append, List.foldl_cons, Stage.on, ← hheld]
    exact ih sited (hs.trans (size_afterAll hm.fits).symm)
  | @block t bo b stages verifies boots rest ih =>
    obtain ⟨hm, hheld⟩ := meets_save (P := fun _ _ => True) .block .blockBackup hsited hs
      b.length_encode rfl trivial trivial trivial trivial
    rw [List.flatMap_cons, afterAll_append, List.foldl_cons, Stage.on, ← hheld]
    exact ih hsited (hs.trans (size_afterAll hm.fits).symm)
  | @contents t bo e changes stages listed mutable within rest ih =>
    obtain ⟨hm, hheld⟩ := meets_slot (P := fun _ _ => True) hsited hs listed mutable within
      fun _ => trivial
    rw [List.flatMap_cons, afterAll_append, List.foldl_cons, Stage.on, ← hheld]
    exact ih hsited (hs.trans (size_afterAll hm.fits).symm)

theorem disableChanges_eq (hc : Compact c) (h : Sited c size t site) (b : PointerBlock) (p : UInt64) :
    c.disableChanges t b p = ((b.takenOut p).map Stage.block).flatMap (·.changes site) := by
  unfold disableChanges PointerBlock.takenOut
  split
  · rw [blockChanges_eq hc h, List.map_singleton, List.flatMap_singleton]
    rfl
  · rfl

theorem enableChanges_eq (hc : Compact c) (h : Sited c size t site) (b : PointerBlock) (p : UInt64) :
    c.enableChanges t b p = ((b.putOnTop p).map Stage.block).flatMap (·.changes site) := by
  unfold enableChanges PointerBlock.putOnTop
  rcases (b.enable p).1 with failure | (_ | _)
  · rfl
  · rfl
  · dsimp only
    rw [blockChanges_eq hc h, List.map_singleton, List.flatMap_singleton]
    rfl

theorem verifies_of_defect?_eq (hv : b.verifies = true) (hd : b'.defect? = b.defect?) :
    b'.verifies = true := by
  unfold PointerBlock.verifies at hv ⊢
  rwa [hd]

theorem Course.disable {stages : List Stage} (hv : b.verifies = true) (hb : Bootable t b) (p : UInt64)
    (rest : Course c size site t (some (b.disable p).2) stages) :
    Course c size site t (some b) ((b.takenOut p).map Stage.block ++ stages) := by
  unfold PointerBlock.takenOut
  split
  · exact .block (verifies_of_defect?_eq hv PointerBlock.defect?_disable) (hb.disable p) rest
  next hd =>
    rw [PointerBlock.disable_of_not_changed (by simpa using hd)] at rest
    exact rest

theorem Course.enable (hv : b.verifies = true) (hb : Bootable t b) (he : e ∈ t.listed)
    (hu : e.isProtected = false) :
    Course c size site t (some b) ((b.putOnTop e.offset).map Stage.block) := by
  unfold PointerBlock.putOnTop
  split
  next hplaced =>
    have heq : b.enable e.offset = (.ok true, (b.enable e.offset).2) := Prod.ext hplaced rfl
    exact .block (verifies_of_defect?_eq hv (PointerBlock.enable_changed heq).2.1) (hb.enable he hu heq)
      (.done _ _)
  · exact .done _ _

/-! ### Plans in stages -/

/-- Which tables the stages of an operation save. -/
structure Outline (op : SlotOperation) (bo : Option PointerBlock) (stages : List Stage)
    (r : Except UpdateError Unit) : Prop where
  table : op.savesTable = true ↔ ∃ t, .table t ∈ stages
  saves : r = .ok () → op.savesBlock = true → ∃ b, .block b ∈ stages
  loads : (∃ b, .block b ∈ stages) → op.savesBlock = true ∨ op.needsBlock = true
  needs : op.needsBlock = true → bo ≠ none

/-- A table that has no defect unless the stored one has can be used. -/
theorem verifies_of_defect? {bytes : List UInt8} (h : tableIn? bytes = some t)
    (hdef : t.defect? = none → t'.defect? = none) : t'.verifies = true := by
  have hv := (Option.filter_eq_some_iff.mp h).2
  unfold PartitionTable.verifies at hv ⊢
  rw [Option.isNone_iff_eq_none] at hv ⊢
  exact hdef hv

theorem Open.anchored {slot : ℕ} (h : c.Open cells slot t b e) (ht : site .table = c.tableOffsets.1)
    (ha : Anchored c size site (held site cells)) : tableIn? (held site cells .table) = some t ∧
      Sited c size t site ∧ blockIn? (held site cells .block) = some b ∧ b.verifies = true ∧
        Bootable t b := by
  have htable : tableIn? (held site cells .table) = some t := by
    rw [← storedTable?_eq ht]
    exact h.table
  obtain ⟨hsited, hboots⟩ := ha t htable
  have hblock : blockIn? (held site cells .block) = some b := by
    rw [← storedBlock?_eq hsited.block]
    exact h.block
  exact ⟨htable, hsited, hblock, (Option.filter_eq_some_iff.mp hblock).2, hboots b hblock⟩

variable {op : SlotOperation} {r : Except UpdateError Unit} {changes : List FlashChange}
  {stages : List Stage} {p : UInt64} {stage : Stage}

theorem table_notMem_map_block (t : PartitionTable) (blocks : List PointerBlock) :
    .table t ∉ blocks.map Stage.block := by
  simp

/-- A pointer that has just been taken out is put on top by saving the block, or not at all. -/
theorem mem_putOnTop_disable (h : placementResult ((b.disable p).2.enable p).1 = .ok ()) :
    ∃ b', b' ∈ (b.disable p).2.putOnTop p := by
  unfold PointerBlock.putOnTop
  rcases PointerBlock.enable_answer (b.disable p).2 p with ⟨-, e, he⟩ | ⟨-, htop, -⟩ | ⟨-, -, hok⟩
  · rw [he] at h
    cases h
  · exact absurd (List.mem_of_mem_head? htop) (not_mem_disable p)
  · rw [hok]
    exact ⟨_, List.mem_cons_self⟩

/-- The operation goes through stages that are sound for what the windows hold. -/
def Staged (c : Session ρ) (size : ℕ) (site : Copy → UInt64) (w : Copy → List UInt8)
    (op : SlotOperation) (changes : List FlashChange) (r : Except UpdateError Unit) : Prop :=
  ∃ t stages, tableIn? (w .table) = some t ∧ Course c size site t (blockIn? (w .block)) stages ∧
    changes = stages.flatMap (·.changes site) ∧ Outline op (blockIn? (w .block)) stages r

/-- An operation that begins with taking an open slot out of the pointer block, and saves no partition
table. -/
theorem Open.staged {slot : ℕ} (op : SlotOperation) (stages : List Stage)
    (h : c.Open cells slot t b e) (hc : Compact c) (ht : site .table = c.tableOffsets.1)
    (ha : Anchored c size site (held site cells))
    (hop : op.savesTable = false) (hneeds : op.needsBlock = true)
    (hrest : Bootable t (b.disable e.offset).2 → (b.disable e.offset).2.verifies = true →
      Course c size site t (some (b.disable e.offset).2) stages)
    (hno : ∀ t, .table t ∉ stages)
    (hsaves : r = .ok () → op.savesBlock = true → ∃ b, .block b ∈ stages) :
    Staged c size site (held site cells) op
      (c.disableChanges t b e.offset ++ stages.flatMap (·.changes site)) r := by
  obtain ⟨htable, hsited, hblock, hv, hboots⟩ := h.anchored ht ha
  refine ⟨t, (b.takenOut e.offset).map Stage.block ++ stages, htable, ?_, ?_, ?_⟩
  · rw [hblock]
    exact .disable hv hboots _
      (hrest (hboots.disable _) (verifies_of_defect?_eq hv PointerBlock.defect?_disable))
  · rw [disableChanges_eq hc hsited, List.flatMap_append]
  · constructor
    · simp only [hop, Bool.false_eq_true, false_iff, not_exists, List.mem_append, not_or]
      exact fun t => ⟨table_notMem_map_block t _, hno t⟩
    · intro hr hs
      obtain ⟨b', hb'⟩ := hsaves hr hs
      exact ⟨b', List.mem_append_right _ hb'⟩
    · exact fun _ => .inr hneeds
    · exact fun _ => by simp [hblock]

theorem Open.staged_erase {slot : ℕ} (h : c.Open cells slot t b e) (hc : Compact c)
    (ht : site .table = c.tableOffsets.1) (ha : Anchored c size site (held site cells)) :
    Staged c size site (held site cells) (.erase slot)
      (c.disableChanges t b e.offset ++ contentChanges cells.size e fun p => [.erase p.base p.length])
      (contentResult cells.size e (.ok ())) := by
  unfold contentChanges
  cases hl : FlashPartition.ofEntry cells.size e with
  | error fault => exact h.staged _ [] hc ht ha rfl rfl (fun _ _ => .done _ _) (by simp) nofun
  | ok p =>
    obtain ⟨hbase, hlen, -⟩ := ofEntry_eq_ok hl
    have hin : ∀ change ∈ [FlashChange.erase p.base p.length], Within change e := by
      rw [hbase, hlen]
      exact List.forall_mem_singleton.mpr ⟨le_rfl, le_rfl⟩
    exact h.staged _ [.contents _] hc ht ha rfl rfl
      (fun _ _ => .contents (List.mem_of_getElem? h.entry) h.mutable hin (.done _ _)) (by simp) nofun

/-- A raw image is not booted, any other is put on top once it is there. -/
theorem Open.staged_program {slot : ℕ} {image : List UInt8} (kind : ImageKind)
    (h : c.Open cells slot t b e) (fits : image.length ≤ e.length.toNat) (hc : Compact c)
    (ht : site .table = c.tableOffsets.1) (ha : Anchored c size site (held site cells)) :
    Staged c size site (held site cells) (.program kind slot image)
      (c.disableChanges t b e.offset ++
        contentChanges cells.size e fun p => [.erase p.base p.length, .write p.base image] ++
          if kind = .raw then [] else c.enableChanges t (b.disable e.offset).2 e.offset)
      (contentResult cells.size e
        (if kind = .raw then .ok () else placementResult ((b.disable e.offset).2.enable e.offset).1)) := by
  unfold contentChanges contentResult
  cases hl : FlashPartition.ofEntry cells.size e with
  | error fault => exact h.staged _ [] hc ht ha rfl rfl (fun _ _ => .done _ _) (by simp) nofun
  | ok p =>
    obtain ⟨hbase, hlen, -⟩ := ofEntry_eq_ok hl
    have he := List.mem_of_getElem? h.entry
    have hin : ∀ change ∈ [.erase p.base p.length, .write p.base image], Within change e := by
      rw [hbase, hlen]
      exact inside_replaceChanges fits
    dsimp only
    by_cases hk : kind = .raw
    · rw [if_pos hk, if_pos hk, List.append_nil]
      exact h.staged _ [.contents _] hc ht ha rfl rfl
        (fun _ _ => .contents he h.mutable hin (.done _ _)) (by simp)
        fun _ hop => by simp [SlotOperation.savesBlock, hk] at hop
    · rw [if_neg hk, if_neg hk, enableChanges_eq hc (h.anchored ht ha).2.1]
      refine h.staged _ (.contents _ :: ((b.disable e.offset).2.putOnTop e.offset).map Stage.block) hc ht ha
        rfl rfl (fun hb hv => .contents he h.mutable hin (.enable hv hb he h.mutable)) (fun t hm => ?_)
        fun hr _ => ?_
      · rcases List.mem_cons.mp hm with hm | hm
        · cases hm
        · exact table_notMem_map_block t _ hm
      · obtain ⟨b', hb'⟩ := mem_putOnTop_disable hr
        exact ⟨b', List.mem_cons_of_mem _ (List.mem_map_of_mem hb')⟩

/-- An operation that saves a partition table and nothing else. -/
theorem Anchored.staged_table (hc : Compact c) (ht : site .table = c.tableOffsets.1)
    (ha : Anchored c size site (held site cells)) (table : c.storedTable? cells = some t)
    (hsited : Sited c size t site → Sited c size t' site) (hdef : t.defect? = none → t'.defect? = none)
    (hs : Succeeds t t' none) (hop : op.savesTable = true) (hblock : op.savesBlock = false)
    (hneeds : op.needsBlock = false) :
    Staged c size site (held site cells) op (c.tableChanges t') r := by
  have htable : tableIn? (held site cells .table) = some t := by rwa [← storedTable?_eq ht]
  obtain ⟨hsite, hboots⟩ := ha t htable
  refine ⟨t, [.table t'], htable, ?_, ?_, by simp [hop], by simp [hblock], by simp, by simp [hneeds]⟩
  · refine .table (hsited hsite) (verifies_of_defect? htable hdef) (fun b hb => ?_) (.done _ _)
    exact (hboots b hb).succeed hs nofun
  · rw [tableChanges_eq hc hsite, List.flatMap_singleton]
    rfl

/-- An operation is refused, or goes through stages that are sound. -/
theorem Plans.staged (hc : Compact c) (hs : size = cells.size) (ht : site .table = c.tableOffsets.1)
    (ha : Anchored c size site (held site cells)) (h : Plans c cells op changes r) :
    (changes = [] ∧ r ≠ .ok ()) ∨ Staged c size site (held site cells) op changes r := by
  cases h with
  | refused op failure => exact .inl ⟨rfl, nofun⟩
  | created table made fresh sized fits apart pushed =>
    exact .inr (ha.staged_table hc ht table
      (fun hsite => hsite.push made fresh sized (hs ▸ fits) apart pushed)
      (PartitionTable.push_eq_ok pushed).2.2 (.push pushed) rfl rfl rfl)
  | renamed table entry mutable fresh edited =>
    obtain ⟨-, -, -, -, -, hdef⟩ := PartitionTable.modifyEntry_eq_ok edited
    exact .inr (ha.staged_table hc ht table (fun hsite => hsite.rename entry mutable fresh edited) hdef
      (.rename entry mutable edited) rfl rfl rfl)
  | @deleted slot t t' b e opened removed =>
    obtain ⟨htable, hsited, hblock, hv, hboots⟩ := opened.anchored ht ha
    refine .inr ⟨t, (b.takenOut e.offset).map Stage.block ++ [.table t'], htable, ?_, ?_, ?_⟩
    · rw [hblock]
      -- the pointer goes first, so the entry removed afterwards is the offset of no pointer
      refine .disable hv hboots _ (.table (hsited.remove opened.mutable removed)
        (verifies_of_defect? htable (PartitionTable.remove_eq_ok removed).2.2) ?_ (.done _ _))
      rintro _ ⟨⟩
      refine (hboots.disable e.offset).succeed (.remove removed) ?_
      rintro _ ⟨⟩
      exact not_mem_disable _
    · rw [disableChanges_eq hc hsited, tableChanges_eq hc hsited, List.flatMap_append,
        List.flatMap_singleton]
      rfl
    · exact ⟨by simp [SlotOperation.savesTable], nofun, fun _ => .inr rfl, fun _ => by simp [hblock]⟩
  | @enabled slot t b e opened =>
    obtain ⟨htable, hsited, hblock, hv, hboots⟩ := opened.anchored ht ha
    refine .inr ⟨t, (b.putOnTop e.offset).map Stage.block, htable, ?_, enableChanges_eq hc hsited b _, ?_⟩
    · rw [hblock]
      exact .enable hv hboots (List.mem_of_getElem? opened.entry) opened.mutable
    · refine ⟨?_, nofun, fun _ => .inr rfl, fun _ => by simp [hblock]⟩
      simp only [SlotOperation.savesTable, Bool.false_eq_true, false_iff, not_exists]
      exact fun t => table_notMem_map_block t _
  | @disabled slot t b e opened =>
    have := opened.staged (.disable slot) [] (r := .ok ()) hc ht ha rfl rfl
      (fun _ _ => .done _ _) (by simp) nofun
    rw [List.flatMap_nil, List.append_nil] at this
    exact .inr this
  | erased opened => exact .inr (opened.staged_erase hc ht ha)
  | programmed kind opened nonempty fits => exact .inr (opened.staged_program kind fits hc ht ha)
  | @emptied t r table =>
    have htable : tableIn? (held site cells .table) = some t := by rwa [← storedTable?_eq ht]
    have hv : (PointerBlock.empty maxPointers).verifies = true := by decide
    refine .inr ⟨t, [.block (.empty maxPointers)], htable, .block hv (bootable_empty _ _) (.done _ _), ?_,
      by simp [SlotOperation.savesTable], fun _ _ => ⟨_, List.mem_cons_self⟩, fun _ => .inl rfl, nofun⟩
    rw [blockChanges_eq hc (ha t htable).1, List.flatMap_singleton]
    rfl

end Session

end RemoteUpdate
