import RemoteUpdate.Proofs.Session.Comparing
import RemoteUpdate.Proofs.Table.Partitions

/-!
# The operations on slots

Each operation that changes flash is a `SlotOperation`. `Plans` lists the changes that an operation can
have in mind, by what flash holds when it starts: none at all when it is refused, or else all the changes
that it is for. An operation makes the changes in order, and stops at the first that fails.
-/

namespace RemoteUpdate

variable {ρ φ : Type}

/-- An operation on the slots of a device. -/
inductive SlotOperation where
  | create (name : String) (offset : UInt64) (size : UInt32)
  | delete (slot : ℕ)
  | rename (slot : ℕ) (name : String)
  | enable (slot : ℕ)
  | disable (slot : ℕ)
  | erase (slot : ℕ)
  | program (kind : Session.ImageKind) (slot : ℕ) (image : List UInt8)
  | createEmptyBlock

namespace Session

def perform [FlashDevice φ] (c : Session ρ) : SlotOperation → SessionM ρ φ Unit
  | .create name offset size => discard (c.createSlot name offset size)
  | .delete slot => c.deleteSlot slot
  | .rename slot name => c.renameSlot slot name
  | .enable slot => c.enableSlot slot
  | .disable slot => c.disableSlot slot
  | .erase slot => c.eraseSlot slot
  | .program kind slot image => c.programSlot kind slot image
  | .createEmptyBlock => c.createEmptyBlock

def performAll [FlashDevice φ] (c : Session ρ) :
    List SlotOperation → StateT (SessionState ρ φ) LogM Unit
  | [] => pure ()
  | op :: rest => do
    discard (c.perform op).run
    c.performAll rest

/-! ### Plans -/

/-- Both stored tables can be used, and slot `slot` is an entry that may be changed. -/
structure Open (c : Session ρ) (cells : ByteArray) (slot : ℕ) (t : PartitionTable) (b : PointerBlock)
    (e : PartitionEntry) : Prop where
  table : c.storedTable? cells = some t
  block : c.storedBlock? cells t = some b
  entry : t.listed[slot]? = some e
  mutable : e.isProtected = false

/-- The changes of the contents of a slot, if it is a range of a device with so many bytes. -/
def contentChanges (capacity : ℕ) (e : PartitionEntry) (changes : FlashPartition → List FlashChange) :
    List FlashChange :=
  match FlashPartition.ofEntry capacity e with
  | .ok p => changes p
  | .error _ => []

/-- What changing the contents of a slot ends with. -/
def contentResult (capacity : ℕ) (e : PartitionEntry) (r : Except UpdateError Unit) :
    Except UpdateError Unit :=
  match FlashPartition.ofEntry capacity e with
  | .ok _ => r
  | .error fault => .error (.flash fault)

/-- The changes that an operation has in mind when it starts on these cells, and what it ends with if none
of them fails. -/
inductive Plans (c : Session ρ) (cells : ByteArray) :
    SlotOperation → List FlashChange → Except UpdateError Unit → Prop
  | refused (op : SlotOperation) (failure : UpdateError) : Plans c cells op [] (.error failure)
  | created {name : String} {offset : UInt64} {size : UInt32} {t t' : PartitionTable}
      {e : PartitionEntry} {slot : ℕ} (table : c.storedTable? cells = some t)
      (made : PartitionEntry.make name offset size 0 = .ok e) (fresh : t.findName? name = none)
      (sized : size ≠ 0) (fits : e.top ≤ cells.size)
      (apart : t.findOverlap offset size = .ok none) (pushed : t.push e = .ok (slot, t')) :
      Plans c cells (.create name offset size) (c.tableChanges t') (.ok ())
  | deleted {slot : ℕ} {t t' : PartitionTable} {b : PointerBlock} {e : PartitionEntry}
      (opened : c.Open cells slot t b e) (removed : t.remove slot = .ok (e, t')) :
      Plans c cells (.delete slot) (c.disableChanges t b e.offset ++ c.tableChanges t') (.ok ())
  | renamed {slot : ℕ} {name : String} {t t' : PartitionTable} {e : PartitionEntry}
      (table : c.storedTable? cells = some t) (entry : t.listed[slot]? = some e)
      (mutable : e.isProtected = false)
      (fresh : ∀ other, t.findName? name = some other → other = slot)
      (edited : t.modifyEntry slot (·.rename name) = .ok t') :
      Plans c cells (.rename slot name) (c.tableChanges t') (.ok ())
  | enabled {slot : ℕ} {t : PartitionTable} {b : PointerBlock} {e : PartitionEntry}
      (opened : c.Open cells slot t b e) :
      Plans c cells (.enable slot) (c.enableChanges t b e.offset)
        (placementResult (b.enable e.offset).1)
  | disabled {slot : ℕ} {t : PartitionTable} {b : PointerBlock} {e : PartitionEntry}
      (opened : c.Open cells slot t b e) :
      Plans c cells (.disable slot) (c.disableChanges t b e.offset) (.ok ())
  | erased {slot : ℕ} {t : PartitionTable} {b : PointerBlock} {e : PartitionEntry}
      (opened : c.Open cells slot t b e) :
      Plans c cells (.erase slot)
        (c.disableChanges t b e.offset ++
          contentChanges cells.size e fun p => [.erase p.base p.length])
        (contentResult cells.size e (.ok ()))
  | programmed (kind : ImageKind) {slot : ℕ} {image : List UInt8} {t : PartitionTable}
      {b : PointerBlock} {e : PartitionEntry} (opened : c.Open cells slot t b e)
      (nonempty : image ≠ []) (fits : image.length ≤ e.length.toNat) :
      Plans c cells (.program kind slot image)
        (c.disableChanges t b e.offset ++
          contentChanges cells.size e fun p => [.erase p.base p.length, .write p.base image] ++
            if kind = .raw then [] else c.enableChanges t (b.disable e.offset).2 e.offset)
        (contentResult cells.size e
          (if kind = .raw then .ok () else placementResult ((b.disable e.offset).2.enable e.offset).1))
  | emptied {t : PartitionTable} {r : Except UpdateError Unit} (table : c.storedTable? cells = some t) :
      Plans c cells .createEmptyBlock (c.blockChanges t (.empty maxPointers)) r

variable [FlashDevice φ] [KeepsCells φ] {c : Session ρ} {s : SessionState ρ φ} {α β : Type}

/-! ### Opening a slot -/

omit [FlashDevice φ] [KeepsCells φ] in
theorem ends_slotEntry (slot : ℕ) (s : SessionState ρ φ) :
    Ends (slotEntry slot) s (s.table.entry slot) s :=
  (Ends.get s).bind (ends_require _ s)

omit [FlashDevice φ] [KeepsCells φ] in
theorem ends_mutableEntry_protected {slot : ℕ} {e : PartitionEntry} (he : s.table.listed[slot]? = some e)
    (hp : e.isProtected = true) : Ends (mutableEntry slot) s (.error .invalidArgument) s := by
  have h := ends_slotEntry slot s
  rw [PartitionTable.entry_eq_ok_iff.mpr he] at h
  refine h.bind ?_
  rw [hp, if_pos rfl]
  exact (ends_log _ s).bind (Ends.throw _ s).bind_error

omit [FlashDevice φ] [KeepsCells φ] in
theorem ends_mutableEntry {slot : ℕ} {e : PartitionEntry} (he : s.table.listed[slot]? = some e)
    (hu : e.isProtected = false) : Ends (mutableEntry slot) s (.ok e) s := by
  have h := ends_slotEntry slot s
  rw [PartitionTable.entry_eq_ok_iff.mpr he] at h
  refine h.bind ?_
  rw [hu, if_neg (by decide)]
  exact Ends.pure _ s

omit [FlashDevice φ] [KeepsCells φ] in
/-- A slot that may be changed is looked up, or the program ends. -/
theorem mutableEntry_cases (slot : ℕ) (s : SessionState ρ φ) :
    (∃ e, s.table.listed[slot]? = some e ∧ e.isProtected = false ∧
        Ends (mutableEntry slot) s (.ok e) s) ∨
      ∃ failure, Ends (mutableEntry slot : SessionM ρ φ _) s (.error failure) s := by
  cases he : s.table.entry slot with
  | error failure =>
    have h := ends_slotEntry slot s
    rw [he] at h
    exact Or.inr ⟨failure, h.bind_error⟩
  | ok e =>
    rw [PartitionTable.entry_eq_ok_iff] at he
    cases hp : e.isProtected with
    | true => exact Or.inr ⟨.invalidArgument, ends_mutableEntry_protected he hp⟩
    | false => exact Or.inl ⟨e, he, hp, ends_mutableEntry he hp⟩

/-- A slot is opened and worked on, or the program is refused. -/
theorem open_cases (c : Session ρ) (slot : ℕ) (s : SessionState ρ φ)
    (work : PartitionEntry → SessionM ρ φ Unit) :
    (∃ t b e, c.Open (cells s.flash) slot t b e ∧
        ∀ {changes r t' b'}, Performs (work e) { s with table := t, block := b } changes r t' b' →
          Performs (do c.load; work (← mutableEntry slot)) s changes r t' b') ∨
      ∃ failure t b, Performs (do c.load; work (← mutableEntry slot)) s [] (.error failure) t b := by
  rcases c.load_cases s with ⟨t, b, ht, hb, hload⟩ | ⟨failure, t, hload⟩
  · rcases mutableEntry_cases slot { s with table := t, block := b } with
      ⟨e, he, hm, hopen⟩ | ⟨failure, hopen⟩
    · exact Or.inl ⟨t, b, e, ⟨ht, hb, he, hm⟩, fun h => Performs.after hload (Performs.after_same hopen h)⟩
    · exact Or.inr ⟨failure, t, b, Performs.after hload (Performs.of_ends hopen).bind_error⟩
  · exact Or.inr ⟨failure, t, s.block, (Performs.of_ends hload).bind_error⟩

theorem Open.performs {slot : ℕ} {t t' : PartitionTable} {b b' : PointerBlock} {e : PartitionEntry}
    {work : PartitionEntry → SessionM ρ φ Unit} {changes : List FlashChange}
    {r : Except UpdateError Unit} (h : c.Open (cells s.flash) slot t b e)
    (hw : Performs (work e) { s with table := t, block := b } changes r t' b') :
    Performs (do c.load; work (← mutableEntry slot)) s changes r t' b' :=
  Performs.after (ends_load h.table h.block)
    (Performs.after_same (ends_mutableEntry (s := { s with table := t, block := b }) h.entry h.mutable) hw)

theorem Open.place {cells : ByteArray} {slot : ℕ} {t : PartitionTable} {b : PointerBlock}
    {e : PartitionEntry} (h : c.Open cells slot t b e) :
    ∃ offset, placeOf? t c.layout.blockName = some offset := by
  have := h.block
  unfold storedBlock? at this
  cases hp : placeOf? t c.layout.blockName with
  | none =>
    rw [hp] at this
    cases this
  | some offset => exact ⟨offset, rfl⟩

/-! ### One operation -/

/-- The program makes the changes of a plan, and ends as planned if none of them fails. -/
def Follows (x : SessionM ρ φ α) (s : SessionState ρ φ)
    (plan : List FlashChange → Except UpdateError α → Prop) : Prop :=
  ∃ changes r table block, Performs x s changes r table block ∧ plan changes r

namespace Follows

variable {x : SessionM ρ φ α} {g : α → SessionM ρ φ β} {t : PartitionTable} {b : PointerBlock}
  {plan : List FlashChange → Except UpdateError β → Prop} {a : α} {failure : UpdateError}

omit [KeepsCells φ] in
theorem after (h : Ends x s (.ok a) { s with table := t, block := b })
    (h' : Follows (g a) { s with table := t, block := b } plan) : Follows (x >>= g) s plan := by
  obtain ⟨changes, r, t₁, b₁, hg, hp⟩ := h'
  exact ⟨changes, r, t₁, b₁, Performs.after h hg, hp⟩

omit [KeepsCells φ] in
theorem stop (h : Ends x s (.error failure) { s with table := t, block := b })
    (refused : ∀ failure, plan [] (.error failure)) : Follows (x >>= g) s plan :=
  ⟨[], _, _, _, (Performs.of_ends h).bind_error, refused failure⟩

omit [KeepsCells φ] in
theorem need {r : Except UpdateError α} (refused : ∀ failure, plan [] (.error failure))
    (h : ∀ a, r = .ok a → Follows (g a) s plan) : Follows (require r >>= g) s plan := by
  have hr := ends_require r s
  cases r with
  | ok a => exact after (t := s.table) (b := s.block) hr (h a rfl)
  | error failure => exact stop (t := s.table) (b := s.block) hr refused

end Follows

theorem createSlot_follows (c : Session ρ) (s : SessionState ρ φ) (name : String) (offset : UInt64)
    (size : UInt32) : Follows (c.createSlot name offset size) s fun changes r =>
      Plans c (cells s.flash) (.create name offset size) changes (discard r) := by
  have refused (failure : UpdateError) : Plans c (cells s.flash) (.create name offset size) []
      (discard (.error failure : Except UpdateError ℕ)) := Plans.refused _ failure
  rcases c.loadTable_cases s with ⟨t, ht, hload⟩ | ⟨-, failure, hload⟩
  · refine Follows.after (b := s.block) hload (Follows.need refused fun e made => ?_)
    dsimp only
    split
    · exact Follows.stop (Ends.throw _ _) refused
    next fresh =>
      split
      · exact Follows.stop (Ends.throw _ _) refused
      next sized =>
        refine Follows.after (Ends.get _) (Follows.need refused fun top htop => ?_)
        split
        · exact Follows.stop (Ends.throw _ _) refused
        next fits =>
          refine Follows.need refused fun meets apart => ?_
          cases meets with
          | some i => exact Follows.after (ends_log _ _) (Follows.stop (Ends.throw _ _) refused)
          | none =>
            refine Follows.need refused fun pushed hpush => ?_
            obtain ⟨slot, t'⟩ := pushed
            have hfit : e.top ≤ (cells s.flash).size := by
              rw [KeepsCells.capacity_eq, PartitionTable.rangeEnd_eq_ok htop] at fits
              exact Nat.not_lt.mp fits
            refine ⟨_, .ok slot, t', s.block, ?_, Plans.created ht made (by simpa using fresh) sized hfit
              apart hpush⟩
            refine Performs.after (t := t') (b := s.block) (Ends.modify _ _) ?_
            exact (performs_saveTable c _).andThen fun _ => (ends_log _ _).bind (Ends.pure _ _)
  · exact Follows.stop (t := s.table) (b := s.block) hload refused

theorem renameSlot_follows (c : Session ρ) (s : SessionState ρ φ) (slot : ℕ) (name : String) :
    Follows (c.renameSlot slot name) s (Plans c (cells s.flash) (.rename slot name)) := by
  have refused (failure : UpdateError) : Plans c (cells s.flash) (.rename slot name) []
      (.error failure) := Plans.refused _ failure
  rcases c.loadTable_cases s with ⟨t, ht, hload⟩ | ⟨-, failure, hload⟩
  · refine Follows.after (b := s.block) hload ?_
    rcases mutableEntry_cases slot { s with table := t } with ⟨e, he, hm, hopen⟩ | ⟨failure, hopen⟩
    · refine Follows.after (t := t) (b := s.block) hopen ?_
      dsimp only
      -- no slot has the name, or this one itself: either way the edit is the same
      have edit (fresh : ∀ other, t.findName? name = some other → other = slot) :
          Follows (do
            let table ← require (t.modifyEntry slot (·.rename name))
            modify fun s => { s with table }
            c.saveTable
            log (.slotRenamed slot e.nameText name)) { s with table := t }
            (Plans c (cells s.flash) (.rename slot name)) := by
        refine Follows.need refused fun t' edited => ?_
        refine ⟨_, .ok (), t', s.block, ?_, Plans.renamed ht he hm fresh edited⟩
        refine Performs.after (t := t') (b := s.block) (Ends.modify _ _) ?_
        exact (performs_saveTable c _).andThen fun _ => ends_log _ _
      cases hn : t.findName? name with
      | none => exact edit (by simp [hn])
      | some other =>
        dsimp only
        split
        · exact Follows.stop (t := t) (b := s.block) (Ends.throw _ _) refused
        next hsame =>
          refine edit fun k hk => ?_
          rw [hn] at hk
          obtain rfl := Option.some.inj hk
          exact not_not.mp hsame
    · exact Follows.stop (t := t) (b := s.block) hopen refused
  · exact Follows.stop (t := s.table) (b := s.block) hload refused

theorem createEmptyBlock_follows (c : Session ρ) (s : SessionState ρ φ) :
    Follows c.createEmptyBlock s (Plans c (cells s.flash) .createEmptyBlock) := by
  rcases c.loadTable_cases s with ⟨t, ht, hload⟩ | ⟨-, failure, hload⟩
  · have hd : Ends (discard c.loadTable) s (.ok ()) { s with table := t } := hload.bind (Ends.pure _ _)
    refine Follows.after (b := s.block) hd ?_
    refine Follows.after (t := t) (b := .empty maxPointers) (Ends.modify _ _) ?_
    refine Follows.after (t := t) (b := .empty maxPointers) (ends_log _ _) ?_
    exact ⟨_, _, _, _, performs_saveBlock c _, Plans.emptied ht⟩
  · have hd : Ends (discard c.loadTable) s (.error failure) s := hload.bind_error
    exact Follows.stop (t := s.table) (b := s.block) hd (Plans.refused _)

/-- An operation that opens a slot is refused, or follows a plan from there. -/
theorem Follows.opened {op : SlotOperation} {slot : ℕ} {work : PartitionEntry → SessionM ρ φ Unit}
    (h : ∀ t b e, c.Open (cells s.flash) slot t b e →
      Follows (work e) { s with table := t, block := b } (Plans c (cells s.flash) op)) :
    Follows (do c.load; work (← mutableEntry slot)) s (Plans c (cells s.flash) op) := by
  rcases open_cases c slot s work with ⟨t, b, e, hopen, hrest⟩ | ⟨failure, t, b, hstop⟩
  · obtain ⟨changes, r, t', b', hw, hp⟩ := h t b e hopen
    exact ⟨changes, r, t', b', hrest hw, hp⟩
  · exact ⟨[], _, t, b, hstop, Plans.refused op failure⟩

theorem enableSlot_follows (c : Session ρ) (s : SessionState ρ φ) (slot : ℕ) :
    Follows (c.enableSlot slot) s (Plans c (cells s.flash) (.enable slot)) := by
  refine Follows.opened fun t b e hopen => ?_
  obtain ⟨offset, hp⟩ := hopen.place
  exact ⟨_, _, _, _, performs_enablePointer slot e hp, Plans.enabled hopen⟩

theorem disableSlot_follows (c : Session ρ) (s : SessionState ρ φ) (slot : ℕ) :
    Follows (c.disableSlot slot) s (Plans c (cells s.flash) (.disable slot)) := by
  refine Follows.opened fun t b e hopen => ?_
  obtain ⟨offset, hp⟩ := hopen.place
  exact ⟨_, _, _, _, performs_disablePointer slot e hp, Plans.disabled hopen⟩

/-- An open slot is taken out of the pointer block and then out of the partition table. -/
theorem performs_deleteSlot {slot : ℕ} {t t' : PartitionTable} {b : PointerBlock} {e : PartitionEntry}
    (h : c.Open (cells s.flash) slot t b e) (hr : t.remove slot = .ok (e, t')) :
    Performs (c.deleteSlot slot) s (c.disableChanges t b e.offset ++ c.tableChanges t') (.ok ())
      t' (b.disable e.offset).2 := by
  obtain ⟨offset, hp⟩ := h.place
  have hdis := performs_disablePointer (s := { s with table := t, block := b }) slot e hp
  refine h.performs (hdis.bind fun flash _ => ?_)
  refine Performs.after_same (Ends.get _) ?_
  dsimp only
  rw [hr]
  refine Performs.after_same (ends_require _ _) ?_
  refine Performs.after (t := t') (Ends.modify _ _) ?_
  exact (performs_saveTable c _).andThen fun _ => ends_log _ _

theorem deleteSlot_follows (c : Session ρ) (s : SessionState ρ φ) (slot : ℕ) :
    Follows (c.deleteSlot slot) s (Plans c (cells s.flash) (.delete slot)) := by
  rcases open_cases c slot s _ with ⟨t, b, e, hopen, -⟩ | ⟨failure, t, b, hstop⟩
  · obtain ⟨t', hr⟩ := PartitionTable.remove_of_listed hopen.entry
    exact ⟨_, _, _, _, performs_deleteSlot hopen hr, Plans.deleted hopen hr⟩
  · exact ⟨[], _, t, b, hstop, Plans.refused _ failure⟩

theorem ends_slotPartition (e : PartitionEntry) (s : SessionState ρ φ) : Ends (slotPartition e) s
    ((FlashPartition.ofEntry (cells s.flash).size e).mapError .flash) s := by
  refine (Ends.get s).bind ?_
  rw [KeepsCells.capacity_eq]
  exact ends_require _ s

theorem ofEntry_eq_ok {capacity : ℕ} {e : PartitionEntry} {p : FlashPartition}
    (h : FlashPartition.ofEntry capacity e = .ok p) :
    p.base = e.offset.toNat ∧ p.length = e.length.toNat ∧ e.top ≤ capacity := by
  unfold FlashPartition.ofEntry FlashPartition.make at h
  split at h
  · cases h
  next hc =>
    split at h
    · cases h
    · obtain rfl := Except.ok.inj h
      exact ⟨rfl, rfl, Nat.not_lt.mp hc⟩

theorem ofEntry_of_inside {capacity : ℕ} {e : PartitionEntry} (h : e.top ≤ capacity) :
    FlashPartition.ofEntry capacity e = .ok ⟨e.nameText, e.offset.toNat, e.length.toNat⟩ := by
  unfold PartitionEntry.top at h
  unfold FlashPartition.ofEntry FlashPartition.make
  rw [if_neg (Nat.not_lt.mpr h), if_neg (Nat.not_lt.mpr e.utf8ByteSize_nameText)]

omit [KeepsCells φ] in
theorem erase_eq (p : FlashPartition) :
    (p.erase 0 p.length : FlashM φ Unit) = (FlashChange.erase p.base p.length).play := by
  unfold FlashPartition.erase FlashPartition.locate
  rw [if_pos (by omega)]
  rfl

omit [KeepsCells φ] in
theorem write_eq {p : FlashPartition} {bytes : List UInt8} (h : bytes.length ≤ p.length) :
    (p.write 0 bytes : FlashM φ Unit) = (FlashChange.write p.base bytes).play := by
  unfold FlashPartition.write FlashPartition.locate
  rw [if_pos (by omega)]
  rfl

theorem eraseSlot_follows (c : Session ρ) (s : SessionState ρ φ) (slot : ℕ) :
    Follows (c.eraseSlot slot) s (Plans c (cells s.flash) (.erase slot)) := by
  refine Follows.opened fun t b e hopen => ?_
  obtain ⟨offset, hp⟩ := hopen.place
  have hdis := performs_disablePointer (s := { s with table := t, block := b }) slot e hp
  refine ⟨_, _, t, (b.disable e.offset).2, hdis.bind fun flash hf => ?_, Plans.erased hopen⟩
  have hpart := ends_slotPartition e { s with flash, table := t, block := (b.disable e.offset).2 }
  dsimp only at hpart
  rw [size_playAll hf] at hpart
  unfold contentChanges contentResult
  cases hl : FlashPartition.ofEntry (cells s.flash).size e with
  | error fault =>
    rw [hl] at hpart
    exact (Performs.of_ends hpart).bind_error
  | ok p =>
    rw [hl] at hpart
    refine Performs.after_same hpart ?_
    rw [erase_eq]
    exact (performs_change _ _).andThen fun _ => ends_log _ _

/-- The image passes the checks of its kind. -/
def passes (c : Session ρ) (kind : ImageKind) (image : List UInt8) : Bool :=
  match kind with
  | .application => c.verifier.accepts image
  | .factoryUpdate => c.verifier.acceptsFactory image
  | .raw => true

omit [FlashDevice φ] [KeepsCells φ] in
theorem ends_checkImage (c : Session ρ) (kind : ImageKind) (image : List UInt8)
    (s : SessionState ρ φ) : Ends (c.checkImage kind image) s
      (if c.passes kind image then .ok () else .error .invalidArgument) s := by
  have verdict (valid : Bool) : Ends (do
      unless valid do
        log .imageRejected
        throw .invalidArgument) s (if valid then .ok () else .error .invalidArgument) s := by
    cases valid with
    | true => exact Ends.pure _ s
    | false => exact (ends_log _ s).bind (Ends.throw _ s)
  cases kind with
  | application => exact verdict (c.verifier.accepts image)
  | factoryUpdate => exact verdict (c.verifier.acceptsFactory image)
  | raw => exact verdict true

omit [FlashDevice φ] [KeepsCells φ] in
theorem checkImage_cases (c : Session ρ) (kind : ImageKind) (image : List UInt8)
    (s : SessionState ρ φ) : Ends (c.checkImage kind image) s (.ok ()) s ∨
      ∃ failure, Ends (c.checkImage kind image) s (.error failure) s := by
  have h := ends_checkImage c kind image s
  split at h
  · exact Or.inl h
  · exact Or.inr ⟨_, h⟩

/-- What was just written to a slot is read back. -/
theorem ends_compare_written {p : FlashPartition} {image : List UInt8} {flash flash' : φ}
    (hl : image.length ≤ p.length)
    (hw : (playAll [.write p.base image]).outcome flash = (.ok (), flash')) (hs : s.flash = flash') :
    Ends (compare p 0 image) s (.ok ()) s := by
  have hplay : (FlashChange.write p.base image).play.outcome flash = (.ok (), flash') := by
    rw [playAll] at hw
    rcases hp : ((FlashChange.write p.base image).play : FlashM φ Unit).outcome flash with ⟨r | ⟨⟨⟩⟩, g⟩
    · rw [outcome_bind_error hp] at hw
      cases hw
    · rw [outcome_bind_ok hp] at hw
      exact hw
  obtain ⟨hfit, hcells⟩ := KeepsCells.of_ok hplay
  have hslice := FlashChange.slice_on hfit
  have hsize := FlashChange.size_on hfit
  rw [← hcells] at hslice hsize
  have hfit : p.base + image.length ≤ (cells flash).size := hfit
  refine ends_compare (by omega) ?_ ?_
  · rw [hs, hsize]
    exact hfit
  · rw [hs]
    exact hslice

/-- A slot is erased, written and read back, and the program goes on. -/
theorem performs_contents {e : PartitionEntry} {p : FlashPartition} {image : List UInt8}
    {rest : SessionM ρ φ Unit} {changes : List FlashChange} {r : Except UpdateError Unit}
    {table : PartitionTable} {block : PointerBlock}
    (hp : FlashPartition.ofEntry (cells s.flash).size e = .ok p) (hle : image.length ≤ p.length)
    (h : ∀ flash, Performs rest { s with flash } changes r table block) :
    Performs (do
      let p ← slotPartition e
      onFlash (p.erase 0 p.length)
      onFlash (p.write 0 image)
      compare p 0 image
      rest) s ([.erase p.base p.length, .write p.base image] ++ changes) r table block := by
  have hpart := ends_slotPartition e s
  rw [hp] at hpart
  refine Performs.after_same hpart ?_
  rw [erase_eq, write_eq hle]
  refine (performs_change _ _).bind (l := .write p.base image :: changes) fun flash _ => ?_
  refine (performs_change _ _).bind fun flash' hw => ?_
  exact Performs.after_same (ends_compare_written hle hw rfl) (h flash')

/-- An image that passes the checks is put into an open slot that it fits. -/
theorem performs_programSlot (kind : ImageKind) {slot : ℕ} {image : List UInt8} {t : PartitionTable}
    {b : PointerBlock} {e : PartitionEntry} (hopen : c.Open (cells s.flash) slot t b e)
    (hne : image ≠ []) (hle : image.length ≤ e.length.toNat) (hpass : c.passes kind image = true) :
    ∃ b', Performs (c.programSlot kind slot image) s
      (c.disableChanges t b e.offset ++
        contentChanges (cells s.flash).size e fun p => [.erase p.base p.length, .write p.base image] ++
          if kind = .raw then [] else c.enableChanges t (b.disable e.offset).2 e.offset)
      (contentResult (cells s.flash).size e
        (if kind = .raw then .ok () else placementResult ((b.disable e.offset).2.enable e.offset).1))
      t b' := by
  obtain ⟨offset, hp⟩ := hopen.place
  have hsize : ¬ (image.isEmpty = true ∨ e.length.toNat < image.length) :=
    not_or.mpr ⟨by simpa using hne, Nat.not_lt.mpr hle⟩
  have hdis := performs_disablePointer (s := { s with table := t, block := b }) slot e hp
  -- the program after the checks, whatever the slot is put on top of afterwards
  have go {r : Except UpdateError Unit} {changes : List FlashChange} {b' : PointerBlock}
      (h : Performs (do
        c.disablePointer slot e
        let p ← slotPartition e
        onFlash (p.erase 0 p.length)
        onFlash (p.write 0 image)
        compare p 0 image
        log (.slotProgrammed slot e.nameText image.length)
        unless kind = .raw do
          c.enablePointer slot e) { s with table := t, block := b } changes r t b') :
      Performs (c.programSlot kind slot image) s changes r t b' := by
    have hok := ends_checkImage c kind image { s with table := t, block := b }
    rw [if_pos hpass] at hok
    refine hopen.performs ?_
    rw [if_neg hsize]
    exact Performs.after_same hok h
  unfold contentChanges contentResult
  cases hl : FlashPartition.ofEntry (cells s.flash).size e with
  | error fault =>
    refine ⟨(b.disable e.offset).2, go (hdis.bind fun flash hf => ?_)⟩
    have hpart := ends_slotPartition e { s with flash, table := t, block := (b.disable e.offset).2 }
    dsimp only at hpart
    rw [size_playAll hf, hl] at hpart
    exact (Performs.of_ends hpart).bind_error
  | ok p =>
    obtain ⟨-, hplen, -⟩ := ofEntry_eq_ok hl
    by_cases hk : kind = .raw
    · rw [if_pos hk, if_pos hk]
      refine ⟨(b.disable e.offset).2, go (hdis.bind fun flash hf => ?_)⟩
      refine performs_contents (by rw [size_playAll hf, hl]) (by omega) fun flash' => ?_
      refine Performs.after_same (ends_log _ _) ?_
      rw [if_pos hk]
      exact Performs.pure _ _
    · rw [if_neg hk, if_neg hk]
      refine ⟨((b.disable e.offset).2.enable e.offset).2, go (hdis.bind fun flash hf => ?_)⟩
      refine performs_contents (by rw [size_playAll hf, hl]) (by omega) fun flash' => ?_
      refine Performs.after_same (ends_log _ _) ?_
      rw [if_neg hk]
      exact performs_enablePointer (s := { s with
        flash := flash', table := t, block := (b.disable e.offset).2 }) slot e hp

/-- The slot can be opened, and the image fits it and passes the checks of its kind; or the image is refused
before anything is changed. -/
theorem programSlot_cases (c : Session ρ) (s : SessionState ρ φ) (kind : ImageKind) (slot : ℕ)
    (image : List UInt8) :
    (∃ t b e, c.Open (cells s.flash) slot t b e ∧ image ≠ [] ∧ image.length ≤ e.length.toNat ∧
        c.passes kind image = true) ∨
      ∃ failure t b, Performs (c.programSlot kind slot image) s [] (.error failure) t b := by
  rcases open_cases c slot s _ with ⟨t, b, e, hopen, hwork⟩ | ⟨failure, t, b, hstop⟩
  · by_cases hsize : image.isEmpty = true ∨ e.length.toNat < image.length
    · refine Or.inr ⟨.invalidArgument, t, b, hwork ?_⟩
      rw [if_pos hsize]
      exact (Performs.throw _ _).bind_error
    · obtain ⟨hne, hlen⟩ := not_or.mp hsize
      have hcheck := ends_checkImage c kind image { s with table := t, block := b }
      by_cases hpass : c.passes kind image = true
      · exact Or.inl ⟨t, b, e, hopen, by simpa using hne, Nat.not_lt.mp hlen, hpass⟩
      · rw [if_neg hpass] at hcheck
        refine Or.inr ⟨.invalidArgument, t, b, hwork ?_⟩
        rw [if_neg hsize]
        exact (Performs.of_ends hcheck).bind_error
  · exact Or.inr ⟨failure, t, b, hstop⟩

theorem programSlot_follows (c : Session ρ) (s : SessionState ρ φ) (kind : ImageKind) (slot : ℕ)
    (image : List UInt8) : Follows (c.programSlot kind slot image) s
      (Plans c (cells s.flash) (.program kind slot image)) := by
  rcases programSlot_cases c s kind slot image with
    ⟨t, b, e, hopen, hne, hle, hpass⟩ | ⟨failure, t, b, hstop⟩
  · obtain ⟨b', hp⟩ := performs_programSlot kind hopen hne hle hpass
    exact ⟨_, _, t, b', hp, Plans.programmed kind hopen hne hle⟩
  · exact ⟨[], _, t, b, hstop, Plans.refused _ failure⟩

/-- Every operation follows a plan. -/
theorem perform_follows (c : Session ρ) (s : SessionState ρ φ) (op : SlotOperation) :
    Follows (c.perform op) s (Plans c (cells s.flash) op) := by
  cases op with
  | create name offset size =>
    obtain ⟨changes, r, t, b, h, hp⟩ := createSlot_follows c s name offset size
    cases r with
    | ok slot => exact ⟨changes, .ok (), t, b, h.andThen fun _ => Ends.pure _ _, hp⟩
    | error failure => exact ⟨changes, .error failure, t, b, h.bind_error, hp⟩
  | delete slot => exact deleteSlot_follows c s slot
  | rename slot name => exact renameSlot_follows c s slot name
  | enable slot => exact enableSlot_follows c s slot
  | disable slot => exact disableSlot_follows c s slot
  | erase slot => exact eraseSlot_follows c s slot
  | program kind slot image => exact programSlot_follows c s kind slot image
  | createEmptyBlock => exact createEmptyBlock_follows c s

omit [KeepsCells φ] in
theorem performAll_cons {op : SlotOperation} {ops : List SlotOperation} {r : Except UpdateError Unit}
    {s₁ s' : SessionState ρ φ} (h : Ends (c.perform op) s r s₁)
    (h' : Returns (c.performAll ops) s₁ () s') : Returns (c.performAll (op :: ops)) s () s' := by
  have hstep : Returns (discard (c.perform op).run) s () s₁ := Returns.discard h
  exact hstep.bind (f := fun _ => c.performAll ops) h'

end Session

end RemoteUpdate
