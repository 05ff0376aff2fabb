import RemoteUpdate.Proofs.Session.Anchoring

/-!
# Trying again

An operation that is cut short by a call that fails leaves the two copies of a table apart, and trying again
sees only the copy that counts. An operation that saves a table whenever it succeeds puts the copies back in
step. The others save the pointer block only if that changes it: if the call that failed was to the second
copy of the block, there is nothing left to change, and the second copy stays behind.
-/

namespace RemoteUpdate

theorem Meets.and {J K : FlashChange → ByteArray → Prop} {changes : List FlashChange}
    {cells : ByteArray} (h : Meets J changes cells) (h' : Meets K changes cells) :
    Meets (fun change cells => J change cells ∧ K change cells) changes cells := by
  induction changes generalizing cells with
  | nil => trivial
  | cons change changes ih => exact ⟨⟨h.1, h'.1⟩, h.2.1, ih h.2.2 h'.2.2⟩

/-- No call fails any more. -/
structure ScheduledFlash.Healthy (f : ScheduledFlash) : Prop where
  working : f.device.failing = false
  quiet : ∀ n ≥ f.calls.length, f.schedule n = none

namespace Session

variable {ρ : Type} {c : Session ρ} {cells : ByteArray} {t : PartitionTable} {b : PointerBlock}
  {size : ℕ} {site : Copy → UInt64} {w : Copy → List UInt8} {bo : Option PointerBlock}
  {stages : List Stage} {op : SlotOperation} {changes : List FlashChange} {r : Except UpdateError Unit}

/-! ### Windows in step -/

/-- The two partition tables are in step, or the operation puts them back in step if it succeeds. -/
def MendsTables (op : SlotOperation) (w : Copy → List UInt8) : Prop :=
  op.savesTable = true ∨ w .table = w .tableBackup

/-- The two pointer blocks are in step, or the operation puts them back in step if it succeeds, or it cannot
succeed. -/
def MendsBlocks (op : SlotOperation) (w : Copy → List UInt8) : Prop :=
  op.savesBlock = true ∨ w .block = w .blockBackup ∨
    op.needsBlock = true ∧ blockIn? (w .block) = none

theorem tables_on (stages : List Stage)
    (h : w .table = w .tableBackup ∨ ∃ t, .table t ∈ stages) :
    stages.foldl Stage.on w .table = stages.foldl Stage.on w .tableBackup := by
  induction stages generalizing w with
  | nil => simpa using h
  | cons stage stages ih =>
    refine ih ?_
    cases stage with
    | table t =>
      refine .inl ?_
      rw [Stage.on, saved_second, saved_first _ (by decide)]
    | block b =>
      rw [Stage.on, saved_other _ (by decide) (by decide), saved_other _ (by decide) (by decide)]
      simpa using h
    | contents changes =>
      rw [Stage.on]
      simpa using h

theorem blocks_on (stages : List Stage)
    (h : w .block = w .blockBackup ∨ ∃ b, .block b ∈ stages) :
    stages.foldl Stage.on w .block = stages.foldl Stage.on w .blockBackup := by
  induction stages generalizing w with
  | nil => simpa using h
  | cons stage stages ih =>
    refine ih ?_
    cases stage with
    | table t =>
      rw [Stage.on, saved_other _ (by decide) (by decide), saved_other _ (by decide) (by decide)]
      simpa using h
    | block b =>
      refine .inl ?_
      rw [Stage.on, saved_second, saved_first _ (by decide)]
    | contents changes =>
      rw [Stage.on]
      simpa using h

/-- Each call of an operation that begins in step finds windows that the operation mends, but for the calls
to the second copy of the pointer block. -/
def Cut (op : SlotOperation) (site : Copy → UInt64) (a : ℕ) (w : Copy → List UInt8) : Prop :=
  MendsTables op w ∧ (a = (site .blockBackup).toNat ∨ MendsBlocks op w)

theorem Course.cut (h : Course c size site t bo stages) (hsited : Sited c size t site)
    (hs : size = cells.size) (htable : ∀ t, .table t ∈ stages → op.savesTable = true)
    (hblock : ∀ b, .block b ∈ stages → op.savesBlock = true ∨ op.needsBlock = true)
    (ht : MendsTables op (held site cells))
    (hb : held site cells .block = held site cells .blockBackup) :
    Meets (fun change cells => Cut op site change.address (held site cells))
      (stages.flatMap (·.changes site)) cells := by
  induction h generalizing cells with
  | done t bo => trivial
  | @table t t' bo stages sited verifies boots rest ih =>
    rw [List.flatMap_cons]
    have hop : op.savesTable = true := htable t' List.mem_cons_self
    -- an operation that saves the table writes both copies, whatever it finds in them
    have cut (w : Copy → List UInt8) (hw : w .block = w .blockBackup) (a : ℕ) : Cut op site a w :=
      ⟨.inl hop, .inr (.inr (.inl hw))⟩
    obtain ⟨hm, hheld⟩ := meets_save (P := Cut op site) .tableBackup .table hsited hs t'.length_encode rfl
      (cut _ hb _) (cut _ (by simp [hb]) _) (cut _ (by simp [hb]) _) (cut _ (by simp [hb]) _)
    refine hm.append (ih sited (hs.trans (size_afterAll hm.fits).symm)
      (fun t ht => htable t (List.mem_cons_of_mem _ ht)) (fun b hb => hblock b (List.mem_cons_of_mem _ hb))
      (.inl hop) (by simp [hheld, saved, hb]))
  | @block t bo b stages verifies boots rest ih =>
    rw [List.flatMap_cons]
    have hop := hblock b List.mem_cons_self
    have tables (w : Copy → List UInt8) (h₁ : w .table = held site cells .table)
        (h₂ : w .tableBackup = held site cells .tableBackup) : MendsTables op w :=
      ht.imp id fun h => by rw [h₁, h₂, h]
    -- only here is the first copy unreadable: the operation saves a block anyway or stops without one
    have hnone : MendsBlocks op (Function.update (held site cells) .block erasedTable) := by
      rcases hop with hop | hop
      · exact .inl hop
      · exact .inr (.inr ⟨hop, by rw [Function.update_self, blockIn?_erased]⟩)
    obtain ⟨hm, hheld⟩ := meets_save (P := Cut op site) .block .blockBackup hsited hs b.length_encode rfl
      ⟨ht, .inr (.inr (.inl hb))⟩ ⟨tables _ (by simp) (by simp), .inr hnone⟩
      ⟨tables _ (by simp) (by simp), .inl rfl⟩ ⟨tables _ (by simp) (by simp), .inl rfl⟩
    refine hm.append (ih hsited (hs.trans (size_afterAll hm.fits).symm)
      (fun t ht => htable t (List.mem_cons_of_mem _ ht)) (fun b hb => hblock b (List.mem_cons_of_mem _ hb))
      (tables _ (by simp [hheld, saved]) (by simp [hheld, saved]))
      (by simp [hheld, saved]))
  | @contents t bo e changes stages listed mutable within rest ih =>
    rw [List.flatMap_cons]
    obtain ⟨hm, hheld⟩ := meets_slot (P := Cut op site) hsited hs listed mutable within
      fun _ => ⟨ht, .inr (.inr (.inl hb))⟩
    refine hm.append (ih hsited (hs.trans (size_afterAll hm.fits).symm)
      (fun t ht => htable t (List.mem_cons_of_mem _ ht)) (fun b hb => hblock b (List.mem_cons_of_mem _ hb))
      (by rwa [hheld]) (by rwa [hheld]))

/-! ### One operation -/

section Plans

variable (hc : Compact c) (hs : size = cells.size) (ht : site .table = c.tableOffsets.1)
  (ha : Anchored c size site (held site cells)) (h : Plans c cells op changes r)
include hc hs ht ha h

/-- Where an operation may be cut that begins in step. -/
theorem Plans.cut (tables : held site cells .table = held site cells .tableBackup)
    (blocks : held site cells .block = held site cells .blockBackup) :
    Meets (fun change cells => Cut op site change.address (held site cells)) changes cells ∧
      held site (afterAll changes cells) .table = held site (afterAll changes cells) .tableBackup ∧
      held site (afterAll changes cells) .block = held site (afterAll changes cells) .blockBackup := by
  rcases h.staged hc hs ht ha with ⟨rfl, -⟩ | ⟨t, stages, htable, hcourse, rfl, houtline⟩
  · exact ⟨trivial, tables, blocks⟩
  · have hsited := (ha t htable).1
    rw [hcourse.held_after hsited hs]
    refine ⟨hcourse.cut hsited hs (fun t hm => houtline.table.mpr ⟨t, hm⟩)
      (fun b hm => houtline.loads ⟨b, hm⟩) (.inr tables) blocks, tables_on stages (.inl tables),
      blocks_on stages (.inl blocks)⟩

/-- An operation that makes all its changes puts back in step what it mends, or leaves it to be mended. -/
theorem Plans.mends :
    (MendsTables op (held site cells) → MendsTables op (held site (afterAll changes cells)) ∧
      (r = .ok () →
        held site (afterAll changes cells) .table = held site (afterAll changes cells) .tableBackup)) ∧
    (MendsBlocks op (held site cells) → MendsBlocks op (held site (afterAll changes cells)) ∧
      (r = .ok () →
        held site (afterAll changes cells) .block = held site (afterAll changes cells) .blockBackup)) := by
  rcases h.staged hc hs ht ha with ⟨rfl, hr⟩ | ⟨t, stages, htable, hcourse, rfl, houtline⟩
  · exact ⟨fun hm => ⟨hm, fun h => absurd h hr⟩, fun hm => ⟨hm, fun h => absurd h hr⟩⟩
  · rw [hcourse.held_after (ha t htable).1 hs]
    constructor
    · intro hm
      have heven := tables_on stages (hm.symm.imp id houtline.table.mp)
      exact ⟨.inr heven, fun _ => heven⟩
    · rintro (hop | heven | ⟨hneeds, hnone⟩)
      · exact ⟨.inl hop, fun hr => blocks_on stages (.inr (houtline.saves hr hop))⟩
      · have heven := blocks_on stages (.inl heven)
        exact ⟨.inr (.inl heven), fun _ => heven⟩
      · exact absurd hnone (houtline.needs hneeds)

end Plans

theorem perform_cut (hc : Compact c) (ht : site .table = c.tableOffsets.1)
    {s s' : SessionState ρ ScheduledFlash} (hs : size = s.flash.device.cells.size)
    (ha : Anchored c size site (held site s.flash.device.cells))
    (tables : held site s.flash.device.cells .table = held site s.flash.device.cells .tableBackup)
    (blocks : held site s.flash.device.cells .block = held site s.flash.device.cells .blockBackup)
    (h : Ends (c.perform op) s r s') : size = s'.flash.device.cells.size ∧
      Anchored c size site (held site s'.flash.device.cells) ∧
      MendsTables op (held site s'.flash.device.cells) ∧
      ((∀ call ∈ s'.flash.calls.head?, call.2.address ≠ (site .blockBackup).toNat) →
        MendsBlocks op (held site s'.flash.device.cells)) := by
  obtain ⟨changes, r₁, t, b, hperf, hplan⟩ := perform_follows c s op
  obtain ⟨r', s₁, hends, hflash, -⟩ := hperf.ends
  obtain ⟨-, rfl⟩ := hends.unique h
  obtain ⟨hm, hafter⟩ := hplan.anchored hc hs ht ha
  obtain ⟨hm', htables, hblocks⟩ := hplan.cut hc hs ht ha tables blocks
  obtain ⟨r₂, f', hplay, hsize, -, hend⟩ := (hm.and hm').playAll
  rw [hplay] at hflash
  rw [hflash]
  refine ⟨hs.trans hsize.symm, ?_⟩
  rcases hend with hall | ⟨change, hhead, hfound, hcut⟩
  · rw [hall]
    exact ⟨hafter, .inr htables, fun _ => .inr (.inl hblocks)⟩
  · refine ⟨hfound, hcut.1, fun hcall => ?_⟩
    exact hcut.2.resolve_left (hcall _ hhead)

/-- On a device that no longer fails an operation makes all its changes. -/
theorem perform_healthy (hc : Compact c) (ht : site .table = c.tableOffsets.1)
    {s s' : SessionState ρ ScheduledFlash} (hs : size = s.flash.device.cells.size)
    (ha : Anchored c size site (held site s.flash.device.cells)) (healthy : s.flash.Healthy)
    (h : Ends (c.perform op) s r s') : ∃ changes, Plans c s.flash.device.cells op changes r ∧
      s'.flash.device.cells = afterAll changes s.flash.device.cells ∧
      size = s'.flash.device.cells.size ∧
      Anchored c size site (held site s'.flash.device.cells) ∧ s'.flash.Healthy := by
  obtain ⟨changes, r₁, t, b, hperf, hplan⟩ := perform_follows c s op
  obtain ⟨hm, hafter⟩ := hplan.anchored hc hs ht ha
  obtain ⟨f', hplay, hworking, hschedule, hcalls⟩ := ScheduledFlash.playAll_of_fits hm.fits healthy.working
    fun k _ => healthy.quiet _ (Nat.le_add_right _ _)
  obtain ⟨rfl, rfl⟩ := (hperf.ends_of_ok hplay).unique h
  obtain ⟨-, hcells⟩ := cells_playAll hplay
  have hcells : f'.device.cells = afterAll changes s.flash.device.cells := hcells
  refine ⟨changes, hplan, hcells, ?_, by rwa [hcells], hworking, fun n hn => ?_⟩
  · rw [hcells, size_afterAll hm.fits]
    exact hs
  · have hn : f'.calls.length ≤ n := hn
    rw [hschedule]
    exact healthy.quiet n (by omega)

/-! ### Trying again -/

/-- The operation is made again until it succeeds. -/
inductive Retried {φ : Type} [FlashDevice φ] (c : Session ρ) (op : SlotOperation) :
    SessionState ρ φ → SessionState ρ φ → Prop
  | done {s s' : SessionState ρ φ} (succeeds : Ends (c.perform op) s (.ok ()) s') : Retried c op s s'
  | again {s s₁ s' : SessionState ρ φ} {failure : UpdateError}
      (fails : Ends (c.perform op) s (.error failure) s₁) (rest : Retried c op s₁ s') :
      Retried c op s s'

theorem Retried.mended (hc : Compact c) (ht : site .table = c.tableOffsets.1)
    {s s' : SessionState ρ ScheduledFlash} (h : Retried c op s s')
    (hs : size = s.flash.device.cells.size)
    (ha : Anchored c size site (held site s.flash.device.cells)) (healthy : s.flash.Healthy) :
    (MendsTables op (held site s.flash.device.cells) →
      held site s'.flash.device.cells .table = held site s'.flash.device.cells .tableBackup) ∧
    (MendsBlocks op (held site s.flash.device.cells) →
      held site s'.flash.device.cells .block = held site s'.flash.device.cells .blockBackup) := by
  induction h with
  | done succeeds =>
    obtain ⟨changes, hplan, hcells, -⟩ := perform_healthy hc ht hs ha healthy succeeds
    obtain ⟨htables, hblocks⟩ := hplan.mends hc hs ht ha
    rw [hcells]
    exact ⟨fun hm => (htables hm).2 rfl, fun hm => (hblocks hm).2 rfl⟩
  | again fails rest ih =>
    obtain ⟨changes, hplan, hcells, hs', ha', healthy'⟩ := perform_healthy hc ht hs ha healthy fails
    obtain ⟨htables, hblocks⟩ := hplan.mends hc hs ht ha
    obtain ⟨ihtables, ihblocks⟩ := ih hs' ha' healthy'
    rw [hcells] at ihtables ihblocks
    exact ⟨fun hm => ihtables (htables hm).1, fun hm => ihblocks (hblocks hm).1⟩

/-- From a device whose copies are in step, an operation that fails and is made again until it succeeds on a
device that no longer fails leaves both partition tables in step; and it leaves both pointer blocks in step,
unless it is one that saves the block only if that changes it and the call that failed, which is the latest,
was to the second copy of the block. -/
theorem retried_in_step (c : Session ρ) (hc : Compact c) (op : SlotOperation)
    (s s₁ s₂ : SessionState ρ ScheduledFlash) (t : PartitionTable) (b : PointerBlock)
    (site : Copy → UInt64) (failure : UpdateError)
    (ht : c.storedTable? s.flash.device.cells = some t)
    (hb : c.storedBlock? s.flash.device.cells t = some b)
    (hsited : Sited c s.flash.device.cells.size t site) (hboots : Bootable t b)
    (tables : held site s.flash.device.cells .table = held site s.flash.device.cells .tableBackup)
    (blocks : held site s.flash.device.cells .block = held site s.flash.device.cells .blockBackup)
    (fails : Ends (c.perform op) s (.error failure) s₁) (healthy : s₁.flash.Healthy)
    (retried : Retried c op s₁ s₂) :
    held site s₂.flash.device.cells .table = held site s₂.flash.device.cells .tableBackup ∧
      ((op.savesBlock = true ∨
          ∀ call ∈ s₁.flash.calls.head?, call.2.address ≠ (site .blockBackup).toNat) →
        held site s₂.flash.device.cells .block = held site s₂.flash.device.cells .blockBackup) := by
  have ha := (Anchor.of_stored ht hb hsited hboots).anchored
  obtain ⟨hs, ha₁, htables, hblocks⟩ := perform_cut hc hsited.table rfl ha tables blocks fails
  obtain ⟨mended, mended'⟩ := retried.mended hc hsited.table hs ha₁ healthy
  refine ⟨mended htables, fun hcall => mended' ?_⟩
  rcases hcall with hop | hcall
  · exact .inl hop
  · exact hblocks hcall

/-! ### Enabling a slot -/

section Enabling

variable {s : SessionState ρ ScheduledFlash} {slot : ℕ} {e : PartitionEntry}

theorem performs_enable (h : c.Open s.flash.device.cells slot t b e) :
    Performs (c.perform (.enable slot)) s (c.enableChanges t b e.offset)
      (placementResult (b.enable e.offset).1) t (b.enable e.offset).2 := by
  obtain ⟨offset, hp⟩ := h.place
  exact h.performs (performs_enablePointer (s := { s with table := t, block := b }) slot e hp)

theorem enable_again (h : c.Open s.flash.device.cells slot t b e)
    (htop : (b.enable e.offset).1 = .ok false) : ∃ s',
    Ends (c.perform (.enable slot)) s (.ok ()) s' ∧ s'.flash = s.flash := by
  have h := performs_enable h
  unfold enableChanges at h
  rw [htop] at h
  exact ⟨_, h.ends_of_ok rfl, rfl⟩

theorem enableChanges_save (hc : Compact c) (hsited : Sited c size t site) {p : UInt64}
    (hput : (b.enable p).1 = .ok true) :
    c.enableChanges t b p = save site .block .blockBackup (b.enable p).2.encode := by
  unfold enableChanges
  rw [hput]
  exact blockChanges_eq hc hsited _

theorem fits_save (hsited : Sited c cells.size t site) (b : PointerBlock) :
    ∀ change ∈ save site .block .blockBackup b.encode, change.Fits cells :=
  (meets_save (P := fun _ _ => True) _ _ hsited rfl b.length_encode rfl trivial trivial trivial
    trivial).1.fits

variable (hopen : c.Open s.flash.device.cells slot t b e) (hc : Compact c)
  (hsited : Sited c s.flash.device.cells.size t site) (hput : (b.enable e.offset).1 = .ok true)
include hopen hc hsited hput

theorem enable_healthy (healthy : s.flash.Healthy) : ∃ s',
    Ends (c.perform (.enable slot)) s (.ok ()) s' := by
  have h := performs_enable hopen
  rw [enableChanges_save hc hsited hput, hput] at h
  obtain ⟨f', hplay, -⟩ := ScheduledFlash.playAll_of_fits (fits_save hsited _)
    healthy.working fun k _ => healthy.quiet _ (Nat.le_add_right _ _)
  exact ⟨_, h.ends_of_ok hplay⟩

/-- Putting a slot on top is cut where the only call of the schedule fails. -/
theorem enable_cut {front rest : List FlashChange} {change : FlashChange} {fault : FlashFault}
    (hsave : save site .block .blockBackup (b.enable e.offset).2.encode = front ++ change :: rest)
    (working : s.flash.device.failing = false)
    (schedule : ∀ n ≥ s.flash.calls.length, s.flash.schedule n =
      if n = s.flash.calls.length + front.length then some fault else none) : ∃ s₁,
    Ends (c.perform (.enable slot)) s (.error (.flash fault)) s₁ ∧ s₁.flash.Healthy ∧
      s₁.flash.calls.head? = some (s₁.flash.device.cells, change) ∧
      s₁.flash.device.cells = afterAll front s.flash.device.cells := by
  have h := performs_enable hopen
  have hfit := fits_save hsited (b.enable e.offset).2
  rw [enableChanges_save hc hsited hput, hsave] at h
  rw [hsave] at hfit
  obtain ⟨f', hplay, hworking, hschedule, hcalls, hhead, hcells⟩ := ScheduledFlash.playAll_cut
    (fun change hm => hfit change (List.mem_append_left _ hm)) working
    (fun k hk => by rw [schedule _ (Nat.le_add_right _ _), if_neg (by omega)])
    (by rw [schedule _ (Nat.le_add_right _ _), if_pos rfl])
  unfold Performs at h
  rw [hplay] at h
  obtain ⟨t', b', hends⟩ := h
  refine ⟨_, hends, ⟨hworking, fun n hn => ?_⟩, hhead, hcells⟩
  have hn : f'.calls.length ≤ n := hn
  rw [hschedule, schedule n (by omega), if_neg (by omega)]

/-- If the third call fails, the first copy of the pointer block is new, so that enabling the slot again
succeeds and leaves the second copy behind. -/
theorem enable_left_behind {fault : FlashFault} (working : s.flash.device.failing = false)
    (schedule : ∀ n ≥ s.flash.calls.length,
      s.flash.schedule n = if n = s.flash.calls.length + 2 then some fault else none)
    (blocks : held site s.flash.device.cells .block = held site s.flash.device.cells .blockBackup) :
    ∃ s₁ s₂, Ends (c.perform (.enable slot)) s (.error (.flash fault)) s₁ ∧ s₁.flash.Healthy ∧
      Ends (c.perform (.enable slot)) s₁ (.ok ()) s₂ ∧
      held site s₂.flash.device.cells .block ≠ held site s₂.flash.device.cells .blockBackup := by
  set b' := (b.enable e.offset).2 with hb'
  have heq : b.enable e.offset = (.ok true, b') := Prod.ext hput rfl
  have hblock : blockIn? (held site s.flash.device.cells .block) = some b := by
    rw [← storedBlock?_eq hsited.block]
    exact hopen.block
  have hv : b'.verifies = true :=
    verifies_of_defect?_eq (Option.filter_eq_some_iff.mp hblock).2 (PointerBlock.enable_changed heq).2.1
  have htop : b'.priorities.head? = some e.offset := by
    rw [(PointerBlock.enable_changed heq).1]
    rfl
  have hagain : (b'.enable e.offset).1 = .ok false := PointerBlock.enable_first_iff.mpr htop
  have hsave : save site .block .blockBackup b'.encode =
      replaceChanges (site .block) tableSize b'.encode ++ .erase (site .blockBackup).toNat tableSize ::
        [.write (site .blockBackup).toNat b'.encode] := rfl
  obtain ⟨s₁, hends, healthy, -, hcells⟩ := enable_cut hopen hc hsited hput hsave working schedule
  obtain ⟨hm, hheld⟩ := meets_replace (P := fun _ _ => True) hsited .block rfl b'.length_encode trivial
    trivial
  rw [← hcells] at hheld
  have hopen₁ : c.Open s₁.flash.device.cells slot t b' e := by
    refine ⟨?_, ?_, hopen.entry, hopen.mutable⟩
    · rw [storedTable?_eq hsited.table, hheld, Function.update_of_ne (by decide),
        ← storedTable?_eq hsited.table]
      exact hopen.table
    · rw [storedBlock?_eq hsited.block, hheld, Function.update_self, blockIn?_encode hv]
  obtain ⟨s₂, hends₂, hflash⟩ := enable_again hopen₁ hagain
  -- the second run finds the pointer on top already, so it leaves the second copy as it was
  refine ⟨s₁, s₂, hends, healthy, hends₂, ?_⟩
  rw [hflash, hheld, Function.update_self, Function.update_of_ne (by decide), ← blocks]
  intro hsame
  rw [← hsame, blockIn?_encode hv] at hblock
  rw [Option.some.inj hblock, hput] at hagain
  cases hagain

end Enabling

/-- A device with a slot, on which one call fails. -/
def cutState (n : ℕ) : SessionState Unit ScheduledFlash where
  channel := { registers := () }
  flash := {
    device := slotFlash
    schedule := fun k => if k = n then some .failed else none }

/-- The slot is enabled again after the first call failed, and then both copies are in step. -/
theorem retried_in_step_enable : ∃ s₁ s₂,
    Ends (plainSession.perform (.enable 6)) (cutState 0) (.error (.flash .failed)) s₁ ∧
      s₁.flash.Healthy ∧ Retried plainSession (.enable 6) s₁ s₂ ∧
      held plainSite s₂.flash.device.cells .table = held plainSite s₂.flash.device.cells .tableBackup ∧
      held plainSite s₂.flash.device.cells .block = held plainSite s₂.flash.device.cells .blockBackup := by
  obtain ⟨e, hopen, hput⟩ := open_slotFlash
  have hsave : save plainSite .block .blockBackup (slotPlan.block.enable e.offset).2.encode =
      [] ++ .erase (plainSite .block).toNat tableSize ::
        (.write (plainSite .block).toNat (slotPlan.block.enable e.offset).2.encode ::
          replaceChanges (plainSite .blockBackup) tableSize (slotPlan.block.enable e.offset).2.encode) := rfl
  obtain ⟨s₁, fails, healthy, hhead, hcells⟩ := enable_cut (s := cutState 0) hopen compact_plainSession
    sited_slotFlash hput hsave failing_slotFlash fun n _ => rfl
  rw [afterAll, List.foldl_nil] at hcells
  obtain ⟨s₂, succeeds⟩ := enable_healthy (s := s₁) (hcells ▸ hopen) compact_plainSession
    (hcells ▸ sited_slotFlash) hput healthy
  have hretried : Retried plainSession (.enable 6) s₁ s₂ := .done succeeds
  obtain ⟨htables, hblocks⟩ := retried_in_step plainSession compact_plainSession (.enable 6) (cutState 0)
    s₁ s₂ _ _ plainSite _ stores_slotFlash.table stores_slotFlash.block sited_slotFlash
    (stores_slotFlash.boots _ rfl).bootable tables_slotFlash blocks_slotFlash fails healthy hretried
  refine ⟨s₁, s₂, fails, healthy, hretried, htables, hblocks (.inr fun call hcall => ?_)⟩
  rw [hhead] at hcall
  obtain rfl := Option.some.inj hcall
  simp [FlashChange.address, plainSite]

/-- The slot is enabled again after the third call failed. The device is well-formed and its copies are in
step at first, and in the end the pointer blocks are not. -/
theorem enable_left_behind_slot :
    WellFormed plainSession slotFlash.cells ∧
      Sited plainSession slotFlash.cells.size slotPlan.table plainSite ∧
      held plainSite slotFlash.cells .table = held plainSite slotFlash.cells .tableBackup ∧
      held plainSite slotFlash.cells .block = held plainSite slotFlash.cells .blockBackup ∧
      ∃ s₁ s₂, Ends (plainSession.perform (.enable 6)) (cutState 2) (.error (.flash .failed)) s₁ ∧
        s₁.flash.Healthy ∧ Retried plainSession (.enable 6) s₁ s₂ ∧
        held plainSite s₂.flash.device.cells .block ≠
          held plainSite s₂.flash.device.cells .blockBackup := by
  obtain ⟨e, hopen, hput⟩ := open_slotFlash
  obtain ⟨s₁, s₂, fails, healthy, succeeds, hapart⟩ := enable_left_behind (s := cutState 2) hopen
    compact_plainSession sited_slotFlash hput failing_slotFlash (fun n _ => rfl) blocks_slotFlash
  exact ⟨stores_slotFlash.wellFormed, sited_slotFlash, tables_slotFlash, blocks_slotFlash, s₁, s₂, fails,
    healthy, .done succeeds, hapart⟩

end Session

end RemoteUpdate
