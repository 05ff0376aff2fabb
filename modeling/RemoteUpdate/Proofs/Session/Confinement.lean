import RemoteUpdate.Proofs.Flash.Watching
import RemoteUpdate.Proofs.Mailbox.Patience
import RemoteUpdate.Proofs.Session.Bounds
import RemoteUpdate.Proofs.Session.Conclusion
import RemoteUpdate.Proofs.Table.Codec

/-!
# Malformed metadata is confined

The tables in flash may hold anything: counts, names, offsets, lengths and pointers are whatever the bytes
say. A call that works on the contents of a slot reaches the metadata where the session and the table say that
it is, and beyond that nothing but the range of the entry of the slot, which it has found to be within the
device (`Confined`).
-/

namespace RemoteUpdate

/-- The access lies in the range of an entry, and within a device with so many bytes. -/
structure FlashAccess.Inside (a : FlashAccess) (e : PartitionEntry) (capacity : ℕ) : Prop where
  low : e.offset.toNat ≤ a.address
  high : a.address + a.length ≤ e.offset.toNat + e.length.toNat
  fits : a.address + a.length ≤ capacity

/-- The slot whose contents a call works on. -/
def SessionCall.contentsOf? : SessionCall → Option ℕ
  | .eraseSlot slot | .programSlot _ slot _ | .verifySlot _ slot _ => some slot
  | _ => none

namespace Session

variable {ρ φ α β : Type}

/-! ### Accesses -/

/-- Accesses of the tables: the first copy of the partition table is read, the pointer block is read from its
first place and replaced in all its places. -/
inductive Metadata (c : Session ρ) (t : PartitionTable) : FlashAccess → Prop where
  | readTable : Metadata c t ⟨.read, c.tableOffsets.1.toNat, tableSize⟩
  | readBlock {offset : UInt64} (h : placeOf? t c.layout.blockName = some offset) :
      Metadata c t ⟨.read, offset.toNat, tableSize⟩
  | eraseBlock {offset : UInt64} (h : offset ∈ c.blockPlaces t) :
      Metadata c t ⟨.erase, offset.toNat, c.layout.blockSpace⟩
  | writeBlock {offset : UInt64} (h : offset ∈ c.blockPlaces t) :
      Metadata c t ⟨.write, offset.toNat, tableSize⟩

def readBack (address length : ℕ) : List FlashAccess :=
  if length = 0 then []
  else ⟨.read, address, min compareStep length⟩ :: readBack (address + compareStep) (length - compareStep)
termination_by length
decreasing_by
  simp [compareStep]
  omega

/-- The accesses of contents that a call is for, by the entry of its slot. -/
def contentAccesses (e : PartitionEntry) : SessionCall → List FlashAccess
  | .eraseSlot _ => [⟨.erase, e.offset.toNat, e.length.toNat⟩]
  | .programSlot _ _ image =>
    ⟨.erase, e.offset.toNat, e.length.toNat⟩ :: ⟨.write, e.offset.toNat, image.length⟩ ::
      readBack e.offset.toNat image.length
  | .verifySlot _ _ image => readBack e.offset.toNat image.length
  | _ => []

/-- The accesses of a call that works on the contents of a slot, by the partition table that it has loaded. If
it fails early, all of them are of metadata. Otherwise some are of contents: the first of those that the call
is for, or all of them, and each lies in the range of the slot and within the device. -/
inductive Confined (c : Session ρ) (k : SessionCall) (slot capacity : ℕ) (t : PartitionTable) :
    (succeeds : Bool) → List FlashAccess → Prop where
  | early {accesses : List FlashAccess} (metadata : ∀ a ∈ accesses, Metadata c t a) :
      Confined c k slot capacity t false accesses
  | contents {succeeds : Bool} {e : PartitionEntry} {before contents after : List FlashAccess}
      (listed : t.listed[slot]? = some e) (before_metadata : ∀ a ∈ before, Metadata c t a)
      (front : contents <+: contentAccesses e k) (inside : ∀ a ∈ contents, a.Inside e capacity)
      (all : succeeds = true → contents = contentAccesses e k)
      (after_metadata : ∀ a ∈ after, Metadata c t a) :
      Confined c k slot capacity t succeeds (before ++ contents ++ after)

section Lists

variable {c : Session ρ} {k : SessionCall} {slot capacity : ℕ} {t : PartitionTable} {succeeds : Bool}
  {accesses : List FlashAccess}

/-- Accesses of metadata may come before. -/
theorem Confined.prepend {l : List FlashAccess} (hl : ∀ a ∈ l, Metadata c t a)
    (h : Confined c k slot capacity t succeeds accesses) :
    Confined c k slot capacity t succeeds (l ++ accesses) := by
  cases h with
  | early metadata => exact .early (List.forall_mem_append.mpr ⟨hl, metadata⟩)
  | contents listed before_metadata front inside all after_metadata =>
    rw [← List.append_assoc, ← List.append_assoc]
    exact .contents listed (List.forall_mem_append.mpr ⟨hl, before_metadata⟩) front inside all after_metadata

/-- The reads that bring back a range stay in it. -/
theorem within_readBack (address length : ℕ) : ∀ a ∈ readBack address length,
    address ≤ a.address ∧ a.address + a.length ≤ address + length := by
  induction address, length using readBack.induct with
  | case1 address =>
    rw [readBack, if_pos rfl]
    exact List.forall_mem_nil _
  | case2 address length hne ih =>
    rw [readBack, if_neg hne, List.forall_mem_cons]
    refine ⟨⟨le_rfl, Nat.add_le_add_left (Nat.min_le_right _ _) _⟩, fun a ha => ?_⟩
    by_cases hlast : length ≤ compareStep
    · rw [Nat.sub_eq_zero_of_le hlast, readBack, if_pos rfl] at ha
      cases ha
    · have := ih a ha
      omega

end Lists

/-! ### Programs on a watched device -/

abbrev WatchedM (ρ φ : Type) := SessionM ρ (WatchedFlash φ)

abbrev WatchedState (ρ φ : Type) := SessionState ρ (WatchedFlash φ)

variable [FlashDevice φ] {s s' : WatchedState ρ φ}

/-- From `s` the program comes to an end as `Q` says, with the accesses that it makes on the way. -/
def Touches (x : WatchedM ρ φ α) (s : WatchedState ρ φ)
    (Q : Except UpdateError α → WatchedState ρ φ → List FlashAccess → Prop) : Prop :=
  ∃ r s' accesses, Ends x s r s' ∧ s'.flash.accesses = s.flash.accesses ++ accesses ∧
    FlashDevice.capacity s'.flash = FlashDevice.capacity s.flash ∧ Q r s' accesses

namespace Touches

variable {x : WatchedM ρ φ α} {f : α → WatchedM ρ φ β} {r : Except UpdateError α}
  {Q Q' : Except UpdateError α → WatchedState ρ φ → List FlashAccess → Prop}
  {R : Except UpdateError β → WatchedState ρ φ → List FlashAccess → Prop}

theorem of_ends (h : Ends x s r s') (hflash : s'.flash = s.flash) (hq : Q r s' []) : Touches x s Q :=
  ⟨r, s', [], h, by rw [hflash, List.append_nil], by rw [hflash], hq⟩

theorem mono (h : Touches x s Q) (hq : ∀ r s' l, Q r s' l → Q' r s' l) : Touches x s Q' := by
  obtain ⟨r, s', l, hends, hl, hcap, h⟩ := h
  exact ⟨r, s', l, hends, hl, hcap, hq r s' l h⟩

theorem bind (h : Touches x s Q) (herror : ∀ e s' l, Q (.error e) s' l → R (.error e) s' l)
    (hok : ∀ a s' l, Q (.ok a) s' l → FlashDevice.capacity s'.flash = FlashDevice.capacity s.flash →
      Touches (f a) s' fun r s'' l' => R r s'' (l ++ l')) : Touches (x >>= f) s R := by
  obtain ⟨r, s', l, hends, hl, hcap, h⟩ := h
  cases r with
  | error e => exact ⟨_, s', l, hends.bind_error, hl, hcap, herror e s' l h⟩
  | ok a =>
    obtain ⟨r, s'', l', hends', hl', hcap', h'⟩ := hok a s' l h hcap
    exact ⟨r, s'', l ++ l', hends.bind hends', by rw [hl', hl, List.append_assoc], hcap'.trans hcap, h'⟩

theorem after {a : α} (h : Ends x s (.ok a) s) (hf : Touches (f a) s R) : Touches (x >>= f) s R := by
  obtain ⟨r, s'', l, hends, hrest⟩ := hf
  exact ⟨r, s'', l, h.bind hends, hrest⟩

protected theorem discard {P : WatchedState ρ φ → List FlashAccess → Prop}
    (h : Touches x s fun _ => P) : Touches (discard x) s fun _ => P := by
  rw [Functor.discard, map_const, Function.comp_apply, map_eq_pure_bind]
  refine h.bind (fun _ _ _ => id) fun a s' l hp _ => of_ends (Ends.pure () s') rfl ?_
  rwa [List.append_nil]

theorem logFailure (e : SessionEvent) (h : Touches x s Q) : Touches (Session.logFailure e x) s Q := by
  obtain ⟨r, s', l, hends, hrest⟩ := h
  exact ⟨r, s', l, ends_logFailure hends, hrest⟩

theorem record (a : FlashAccess) (x : FlashM φ α)
    (hcap : ∀ f, FlashDevice.capacity (x.outcome f).2 = FlashDevice.capacity f) :
    Touches (onFlash (WatchedFlash.record a x)) s fun _ s' l => s'.table = s.table ∧ l = [a] :=
  ⟨_, _, [a], ends_onFlash _ s, by rw [WatchedFlash.outcome_record], hcap s.flash.device, rfl, rfl⟩

end Touches

/-! ### Work on metadata -/

/-- From `s` the program comes to an end; it accesses nothing but metadata, and leaves the partition table
that is loaded. -/
def Tends (c : Session ρ) (x : WatchedM ρ φ α) (s : WatchedState ρ φ) : Prop :=
  Touches x s fun _ s' l => s'.table = s.table ∧ ∀ a ∈ l, Metadata c s.table a

namespace Tends

variable {c : Session ρ} {x : WatchedM ρ φ α} {f : α → WatchedM ρ φ β} {a : α}
  {r : Except UpdateError α}

theorem of_ends (h : Ends x s r s') (hflash : s'.flash = s.flash) (htable : s'.table = s.table) :
    Tends c x s :=
  Touches.of_ends h hflash ⟨htable, by simp⟩

theorem bind (h : Tends c x s) (hf : ∀ a s', s'.table = s.table → Tends c (f a) s') :
    Tends c (x >>= f) s := by
  refine Touches.bind h (fun _ _ _ => id) fun a s' l ⟨htable, hl⟩ _ => ?_
  refine (hf a s' htable).mono fun r s'' l' ⟨htable', hl'⟩ => ⟨htable'.trans htable, ?_⟩
  rw [htable] at hl'
  exact List.forall_mem_append.mpr ⟨hl, hl'⟩

theorem after (h : Ends x s (.ok a) s) (hf : Tends c (f a) s) : Tends c (x >>= f) s :=
  Touches.after h hf

theorem log (e : SessionEvent) : Tends c (log e) s :=
  of_ends (ends_log e s) rfl rfl

theorem pure (a : α) : Tends c (Pure.pure a) s :=
  of_ends (Ends.pure a s) rfl rfl

theorem throw (e : UpdateError) : Tends c (throw e : WatchedM ρ φ α) s :=
  of_ends (Ends.throw e s) rfl rfl

theorem setBlock (block : PointerBlock) : Tends c (modify fun s => { s with block }) s :=
  of_ends (Ends.modify _ s) rfl rfl

theorem logFailure (e : SessionEvent) (h : Tends c x s) : Tends c (Session.logFailure e x) s :=
  Touches.logFailure e h

theorem verifiedBlock (b : PointerBlock) : Tends c (Session.verifiedBlock b) s :=
  of_ends (ends_verifiedBlock b s) rfl rfl

theorem require (r : Except UpdateError α) : Tends c (Session.require r) s :=
  of_ends (ends_require r s) rfl rfl

theorem checkImage (kind : ImageKind) (image : List UInt8) : Tends c (c.checkImage kind image) s := by
  rcases checkImage_cases c kind image s with h | ⟨failure, h⟩
  · exact of_ends h rfl rfl
  · exact of_ends h rfl rfl

variable [FixedCapacity φ]

theorem read {address length : ℕ} (h : Metadata c s.table ⟨.read, address, length⟩) :
    Tends c (onFlash (FlashDevice.read address length)) s :=
  (Touches.record _ _ fun f => FixedCapacity.read f address length).mono fun _ _ _ ⟨htable, hl⟩ =>
    ⟨htable, hl ▸ List.forall_mem_singleton.mpr h⟩

/-- A copy of the pointer block is replaced in one of its places. -/
theorem replace {offset : UInt64} (h : offset ∈ c.blockPlaces s.table) (b : PointerBlock) :
    Tends c (Session.replace offset c.layout.blockSpace b.encode) s := by
  refine bind (s := s) ?_ fun _ s' htable => ?_
  · exact (Touches.record _ _ fun f => FixedCapacity.erase f offset.toNat c.layout.blockSpace).mono
      fun _ _ _ ⟨htable, hl⟩ => ⟨htable, hl ▸ List.forall_mem_singleton.mpr (.eraseBlock h)⟩
  · refine (Touches.record _ _ fun f => FixedCapacity.write f offset.toNat b.encode).mono
      fun _ _ _ ⟨htable', hl⟩ => ⟨htable', hl ▸ List.forall_mem_singleton.mpr ?_⟩
    rw [b.length_encode, htable]
    exact .writeBlock h

theorem loadBlock : Tends c c.loadBlock s := by
  have hplace := ends_blockOffset c s
  unfold Session.loadBlock
  cases hp : placeOf? s.table c.layout.blockName with
  | none =>
    rw [hp] at hplace
    exact of_ends hplace.bind_error rfl rfl
  | some offset =>
    rw [hp] at hplace
    refine after hplace ((read (.readBlock hp)).bind fun bytes s₁ h₁ => ?_)
    refine (require _).bind fun b s₂ h₂ => (logFailure _ (verifiedBlock b)).bind fun b s₃ h₃ => ?_
    exact (setBlock b).bind fun _ _ _ => pure b

theorem saveBlock : Tends c c.saveBlock s := by
  have hplace := ends_blockOffset c s
  unfold Session.saveBlock
  cases hp : placeOf? s.table c.layout.blockName with
  | none =>
    rw [hp] at hplace
    exact of_ends hplace.bind_error rfl rfl
  | some offset =>
    rw [hp] at hplace
    have hplaces : c.blockPlaces s.table = offset :: (placeOf? s.table c.layout.backupName).toList := by
      unfold blockPlaces
      rw [hp]
    refine after hplace (after (Ends.get s) ?_)
    refine (replace (hplaces ▸ List.mem_cons_self) _).bind fun _ s₁ h₁ => ?_
    refine after (ends_partitionOffset? _ s₁) ?_
    rw [h₁]
    cases hb : placeOf? s.table c.layout.backupName with
    | none => exact log _
    | some backup =>
      refine (replace ?_ _).bind fun _ _ _ => log _
      rw [h₁, hplaces, hb]
      exact List.mem_cons_of_mem _ List.mem_cons_self

theorem disablePointer (slot : ℕ) (e : PartitionEntry) : Tends c (c.disablePointer slot e) s := by
  refine after (Ends.get s) ?_
  rcases s.block.disable e.offset with ⟨_ | _, block⟩
  · exact pure ()
  · exact (setBlock block).bind fun _ _ _ => saveBlock.bind fun _ _ _ => log _

theorem enablePointer (slot : ℕ) (e : PartitionEntry) : Tends c (c.enablePointer slot e) s := by
  refine after (Ends.get s) ?_
  rcases s.block.enable e.offset with ⟨(_ | _) | _ | _, block⟩
  · exact (setBlock block).bind fun _ _ _ => throw _
  · exact (setBlock block).bind fun _ _ _ => (log _).bind fun _ _ _ => throw _
  · exact (setBlock block).bind fun _ _ _ => pure ()
  · exact (setBlock block).bind fun _ _ _ => saveBlock.bind fun _ _ _ => log _

end Tends

/-! ### Loading -/

variable [FixedCapacity φ]

/-- Loading the partition table is one access of metadata, whatever is found there. -/
theorem touches_loadTable (c : Session ρ) (s : WatchedState ρ φ) :
    Touches c.loadTable s fun _ s' l => ∀ a ∈ l, Metadata c s'.table a := by
  have hread : Touches (do
      let bytes ← onFlash <| FlashDevice.read c.tableOffsets.1.toNat tableSize
      verifiedTable (← require (PartitionTable.decode bytes)) : WatchedM ρ φ _) s
      fun _ _ l => l = [⟨.read, c.tableOffsets.1.toNat, tableSize⟩] := by
    refine (Touches.record _ _ fun f => FixedCapacity.read f _ _).bind (fun _ _ _ h => h.2)
      fun bytes s' l ⟨_, hl⟩ _ => ?_
    subst hl
    have hdecoded := ends_require (PartitionTable.decode bytes) s'
    cases hd : PartitionTable.decode bytes with
    | error e =>
      rw [hd] at hdecoded
      exact Touches.of_ends hdecoded.bind_error rfl rfl
    | ok t =>
      rw [hd] at hdecoded
      exact Touches.of_ends (hdecoded.bind (ends_verifiedTable t s')) rfl rfl
  -- where the table is does not depend on what it says
  have hmetadata : ∀ t, ∀ a ∈ [⟨.read, c.tableOffsets.1.toNat, tableSize⟩], Metadata c t a :=
    fun t => List.forall_mem_singleton.mpr .readTable
  refine (hread.logFailure _).bind (fun _ s' _ h => h ▸ hmetadata s'.table) fun t s' l h _ => ?_
  refine Touches.of_ends ((Ends.modify _ s').bind (Ends.pure t _)) rfl ?_
  rw [h, List.append_nil]
  exact hmetadata t

theorem touches_load (c : Session ρ) (s : WatchedState ρ φ) :
    Touches c.load s fun _ s' l => ∀ a ∈ l, Metadata c s'.table a := by
  refine (touches_loadTable c s).discard.bind (fun _ _ _ => id) fun _ s' l hl _ => ?_
  refine Touches.discard (P := fun s'' l' => ∀ a ∈ l ++ l', Metadata c s''.table a) ?_
  refine (Tends.loadBlock (s := s')).mono fun _ s'' l' ⟨htable, hl'⟩ => ?_
  rw [htable]
  exact List.forall_mem_append.mpr ⟨hl, hl'⟩

/-! ### Work on contents -/

/-- From `s` the program comes to an end; its accesses are the first of those planned, and all of them if it
succeeds, and it leaves the partition table that is loaded. -/
def Traces (plan : List FlashAccess) (x : WatchedM ρ φ α)
    (s : WatchedState ρ φ) : Prop :=
  Touches x s fun r s' l => s'.table = s.table ∧ l <+: plan ∧ ∀ a, r = .ok a → l = plan

namespace Traces

variable {plan plan' : List FlashAccess} {x : WatchedM ρ φ α}
  {f : α → WatchedM ρ φ β}

omit [FixedCapacity φ] in
theorem bind (h : Traces plan x s) (hf : ∀ a s', Traces plan' (f a) s') :
    Traces (plan ++ plan') (x >>= f) s := by
  refine Touches.bind h (fun e s' l ⟨htable, hl, _⟩ => ⟨htable, hl.trans (List.prefix_append _ _), nofun⟩)
    fun a s' l ⟨htable, hl, hall⟩ _ => ?_
  obtain rfl := hall a rfl
  exact (hf a s').mono fun r s'' l' ⟨htable', hl', hall'⟩ =>
    ⟨htable'.trans htable, (List.prefix_append_right_inj _).mpr hl', fun b hb => by rw [hall' b hb]⟩

omit [FixedCapacity φ] in
theorem record (a : FlashAccess) (x : FlashM φ α)
    (hcap : ∀ f, FlashDevice.capacity (x.outcome f).2 = FlashDevice.capacity f) :
    Traces [a] (onFlash (WatchedFlash.record a x)) s :=
  (Touches.record a x hcap).mono fun _ _ _ ⟨htable, hl⟩ => ⟨htable, hl ▸ List.prefix_rfl, fun _ _ => hl⟩

omit [FixedCapacity φ] in
theorem cons {a : FlashAccess} (h : Traces [a] x s) (hf : ∀ a s', Traces plan (f a) s') :
    Traces (a :: plan) (x >>= f) s :=
  h.bind hf

theorem compare {p : FlashPartition} {offset : ℕ} {expected : List UInt8}
    (hl : expected ≠ [] → offset + expected.length ≤ p.length) :
    Traces (readBack (p.base + offset) expected.length) (Session.compare p offset expected) s := by
  induction offset, expected using Session.compare.induct generalizing s with
  | case1 offset expected hnil =>
    rw [Session.compare, if_pos hnil, List.isEmpty_iff.mp hnil, List.length_nil, readBack, if_pos rfl]
    exact Touches.of_ends (Ends.pure () s) rfl ⟨rfl, List.prefix_rfl, fun _ _ => rfl⟩
  | case2 offset expected hne ih =>
    have hempty : expected ≠ [] := by simpa using hne
    have hpos : expected.length ≠ 0 := by simpa using hempty
    have hwanted : (expected.take compareStep).length = min compareStep expected.length := List.length_take
    have hrest : (expected.drop compareStep).length = expected.length - compareStep := List.length_drop
    have hin := hl hempty
    rw [Session.compare, if_neg hne, readBack, if_neg hpos]
    dsimp only
    rw [hwanted, read_eq (by omega)]
    refine .cons (.record _ _ fun f => FixedCapacity.read f (p.base + offset) (min compareStep expected.length))
      fun got s' => ?_
    split
    · refine Touches.of_ends ((ends_log _ s').bind (Ends.throw _ s')) rfl ⟨rfl, List.nil_prefix, ?_⟩
      rintro _ ⟨⟩
    · rw [Nat.add_assoc, ← hrest]
      refine ih fun hmore => ?_
      have := List.length_pos_iff.mpr hmore
      omega

end Traces

/-! ### Calls on contents -/

variable {c : Session ρ} {k : SessionCall} {slot : ℕ}

/-- From `s` the program comes to an end, having done what the call may do from there on. -/
def Confines (c : Session ρ) (k : SessionCall) (slot : ℕ) (x : WatchedM ρ φ Unit)
    (s : WatchedState ρ φ) : Prop :=
  Touches x s fun r s' l => s'.table = s.table ∧
    Confined c k slot (FlashDevice.capacity s.flash) s.table r.isOk l

namespace Confines

omit [FixedCapacity φ]

variable {x : WatchedM ρ φ α} {f : α → WatchedM ρ φ Unit} {a : α} {e : PartitionEntry}

theorem tend (h : Tends c x s) (hf : ∀ a s', s'.table = s.table → Confines c k slot (f a) s') :
    Confines c k slot (x >>= f) s := by
  refine Touches.bind h (fun e s' l ⟨htable, hl⟩ => ⟨htable, .early hl⟩) fun a s' l ⟨htable, hl⟩ hcap => ?_
  refine (hf a s' htable).mono fun r s'' l' ⟨htable', hl'⟩ => ⟨htable'.trans htable, ?_⟩
  rw [htable, hcap] at hl'
  exact hl'.prepend hl

theorem after (h : Ends x s (.ok a) s) (hf : Confines c k slot (f a) s) : Confines c k slot (x >>= f) s :=
  Touches.after h hf

theorem fail {e : UpdateError} {y : WatchedM ρ φ Unit} (h : Ends y s (.error e) s) :
    Confines c k slot y s :=
  Touches.of_ends h rfl ⟨rfl, .early (by simp)⟩

/-- The contents are worked on, and then metadata again. -/
theorem work (he : s.table.listed[slot]? = some e) (hx : Traces (contentAccesses e k) x s)
    (hinside : ∀ a ∈ contentAccesses e k, a.Inside e (FlashDevice.capacity s.flash))
    (hf : ∀ a s', s'.table = s.table → Tends c (f a) s') : Confines c k slot (x >>= f) s := by
  refine Touches.bind hx (fun e s' l ⟨htable, hl, _⟩ => ⟨htable, ?_⟩) fun a s' l ⟨htable, hl, hall⟩ _ => ?_
  · rw [← List.nil_append l, ← List.append_nil ([] ++ l)]
    exact .contents he (by simp) hl (fun a ha => hinside a (hl.subset ha)) nofun (by simp)
  · refine (hf a s' htable).mono fun r s'' l' ⟨htable', hl'⟩ => ⟨htable'.trans htable, ?_⟩
    rw [htable] at hl'
    rw [← List.nil_append l]
    exact .contents he (by simp) hl (fun a ha => hinside a (hl.subset ha)) (fun _ => hall a rfl) hl'

/-- The range of an entry is found to be within the device, or the program ends. -/
theorem within {f : FlashPartition → WatchedM ρ φ Unit} (e : PartitionEntry)
    (hf : ∀ p : FlashPartition, p.base = e.offset.toNat → p.length = e.length.toNat →
      e.top ≤ FlashDevice.capacity s.flash → Confines c k slot (f p) s) :
    Confines c k slot (slotPartition e >>= f) s := by
  have hpart : Ends (slotPartition e) s
      ((FlashPartition.ofEntry (FlashDevice.capacity s.flash) e).mapError .flash) s :=
    (Ends.get s).bind (ends_require _ s)
  cases hp : FlashPartition.ofEntry (FlashDevice.capacity s.flash) e with
  | error fault =>
    rw [hp] at hpart
    exact fail hpart.bind_error
  | ok p =>
    rw [hp] at hpart
    obtain ⟨hbase, hlength, htop⟩ := ofEntry_eq_ok hp
    exact after hpart (hf p hbase hlength htop)

end Confines

section Ranges

variable {e : PartitionEntry} {capacity : ℕ} (htop : e.top ≤ capacity)
include htop

theorem inside_front (call : FlashCall) {n : ℕ} (hn : n ≤ e.length.toNat) :
    FlashAccess.Inside ⟨call, e.offset.toNat, n⟩ e capacity :=
  ⟨le_rfl, Nat.add_le_add_left hn _, (Nat.add_le_add_left hn _).trans htop⟩

theorem inside_readBack {n : ℕ} (hn : n ≤ e.length.toNat) :
    ∀ a ∈ readBack e.offset.toNat n, a.Inside e capacity := by
  intro a ha
  obtain ⟨hlow, hhigh⟩ := within_readBack e.offset.toNat n a ha
  have hfront := hhigh.trans (Nat.add_le_add_left hn _)
  exact ⟨hlow, hfront, hfront.trans htop⟩

end Ranges

/-- What a call does on the device is confined. -/
def CallConfined (c : Session ρ) (k : SessionCall) (slot : ℕ) (x : WatchedM ρ φ α)
    (s : WatchedState ρ φ) : Prop :=
  Touches x s fun r s' l => Confined c k slot (FlashDevice.capacity s.flash) s'.table r.isOk l

/-- The tables are loaded and the slot is opened, or the call fails early. -/
theorem callConfined_opened {work : PartitionEntry → WatchedM ρ φ Unit}
    (hwork : ∀ e s', s'.table.listed[slot]? = some e → Confines c k slot (work e) s') :
    CallConfined c k slot (do c.load; work (← mutableEntry slot)) s := by
  refine (touches_load c s).bind (fun e s' l hl => .early hl) fun _ s' l hl hcap => ?_
  have hrest : Confines c k slot (do work (← mutableEntry slot)) s' := by
    rcases mutableEntry_cases slot s' with ⟨e, he, -, hopen⟩ | ⟨failure, hopen⟩
    · exact .after hopen (hwork e s' he)
    · exact .fail hopen.bind_error
  refine hrest.mono fun r s'' l' ⟨htable, hl'⟩ => ?_
  rw [htable, ← hcap]
  exact hl'.prepend hl

theorem callConfined_eraseSlot (c : Session ρ) (slot : ℕ) (s : WatchedState ρ φ) :
    CallConfined c (.eraseSlot slot) slot (c.eraseSlot slot) s := by
  refine callConfined_opened fun e s₁ he => .tend (.disablePointer slot e) fun _ s₂ h₂ => ?_
  refine .within e fun p hbase hlength htop => ?_
  rw [erase_eq, hbase, hlength]
  refine .work (h₂ ▸ he) (.record _ _ fun f => FixedCapacity.erase f _ _) ?_ fun _ _ _ => .log _
  exact List.forall_mem_singleton.mpr (inside_front htop .erase le_rfl)

theorem callConfined_programSlot (c : Session ρ) (kind : ImageKind) (slot : ℕ) (image : List UInt8)
    (s : WatchedState ρ φ) :
    CallConfined c (.programSlot kind slot image) slot (c.programSlot kind slot image) s := by
  refine callConfined_opened fun e s₁ he => ?_
  dsimp only
  split
  next hsize => exact .fail (Ends.bind_error (Ends.throw _ s₁))
  next hsize =>
    refine .tend (.checkImage kind image) fun _ s₂ h₂ => .tend (.disablePointer slot e) fun _ s₃ h₃ => ?_
    refine .within e fun p hbase hlength htop => ?_
    have himage : image.length ≤ e.length.toNat := by
      simp only [not_or, Nat.not_lt] at hsize
      exact hsize.2
    have hcontents : Traces (contentAccesses e (.programSlot kind slot image)) (do
        onFlash (p.erase 0 p.length)
        onFlash (p.write 0 image)
        compare p 0 image) s₃ := by
      rw [erase_eq, write_eq (by omega), hbase, hlength]
      refine .cons (.record _ _ fun f => FixedCapacity.erase f _ _) fun _ s₄ => ?_
      refine .cons (.record _ _ fun f => FixedCapacity.write f _ _) fun _ s₅ => ?_
      rw [← hbase]
      exact .compare fun _ => by omega
    have hinside : ∀ a ∈ contentAccesses e (.programSlot kind slot image),
        a.Inside e (FlashDevice.capacity s₃.flash) :=
      List.forall_mem_cons.mpr ⟨inside_front htop .erase le_rfl, List.forall_mem_cons.mpr
        ⟨inside_front htop .write himage, inside_readBack htop himage⟩⟩
    have hlisted : s₃.table.listed[slot]? = some e := by rw [h₃, h₂, he]
    -- the three steps on the contents are one program, and what follows is work on metadata
    suffices hall : Confines c (.programSlot kind slot image) slot ((do
        onFlash (p.erase 0 p.length)
        onFlash (p.write 0 image)
        compare p 0 image) >>= fun _ => do
          log (.slotProgrammed slot e.nameText image.length)
          unless kind = .raw do
            c.enablePointer slot e) s₃ by
      simpa only [bind_assoc] using hall
    refine .work hlisted hcontents hinside fun _ s₄ _ => (Tends.log _).bind fun _ s₅ _ => ?_
    split
    · exact .pure ()
    · exact .enablePointer slot e

theorem callConfined_verifySlot (c : Session ρ) (kind : ImageKind) (slot : ℕ) (image : List UInt8)
    (s : WatchedState ρ φ) :
    CallConfined c (.verifySlot kind slot image) slot (c.verifySlot kind slot image) s := by
  refine (touches_loadTable c s).discard.bind (fun e s' l hl => .early hl) fun _ s' l hl hcap => ?_
  -- loading the table moves nothing, so the calls after it see the same entry of the same device
  suffices hrest : Confines c (.verifySlot kind slot image) slot (do
      let e ← slotEntry slot
      if e.length.toNat < image.length then throw .invalidArgument
      c.checkImage kind image
      compare (← slotPartition e) 0 image) s' by
    refine hrest.mono fun r s'' l' ⟨htable, hl'⟩ => ?_
    rw [htable, ← hcap]
    exact hl'.prepend hl
  have hentry := ends_slotEntry slot s'
  cases he : s'.table.entry slot with
  | error failure =>
    rw [he] at hentry
    exact .fail hentry.bind_error
  | ok e =>
    rw [he] at hentry
    refine .after hentry ?_
    split
    next hsize => exact .fail (Ends.bind_error (Ends.throw _ s'))
    next hsize =>
      refine .tend (.checkImage kind image) fun _ s₂ h₂ => ?_
      refine .within e fun p hbase hlength htop => ?_
      have himage : image.length ≤ e.length.toNat := Nat.not_lt.mp hsize
      rw [← bind_pure (compare p 0 image)]
      refine .work (h₂ ▸ PartitionTable.entry_eq_ok_iff.mp he) ?_ (inside_readBack htop himage)
        fun _ _ _ => .pure _
      show Traces (readBack e.offset.toNat image.length) _ _
      rw [← hbase]
      exact .compare fun _ => by omega

/-! ### All calls -/

/-- Malformed metadata cannot break out. Whatever the tables on the device hold, wherever the device manager
says that they are, and whatever is asked for: every operation comes to an end with success or failure; all
that is done with tables and ranges in memory stays in bounds; and a call that works on the contents of a
slot reaches nothing but metadata and the range of the entry of the slot, which is within the device. -/
theorem malformed_confined [RegisterBlock ρ] {I : ρ → Prop} (hI : Responsive I) (c : Session ρ)
    (hcommand : c.mailbox.map.commandSlots ≠ 0) (hresponse : c.mailbox.map.responseSlots ≠ 0) :
    Operable I c φ ∧ Strict.TablesInBounds ∧
      (∀ capacity < UInt64.size, Strict.PartitionsInBounds ρ φ capacity) ∧
      ∀ (k : SessionCall) (slot : ℕ) (s : WatchedState ρ φ), k.contentsOf? = some slot →
        CallConfined c k slot (c.call k) s := by
  refine ⟨operable hI hcommand hresponse, Strict.tablesInBounds, fun capacity h => Strict.partitionsInBounds h, ?_⟩
  intro k slot s hk
  cases k with
  | eraseSlot i =>
    obtain rfl := Option.some.inj hk
    exact callConfined_eraseSlot c i s
  | programSlot kind i image =>
    obtain rfl := Option.some.inj hk
    exact callConfined_programSlot c kind i image s
  | verifySlot kind i image =>
    obtain rfl := Option.some.inj hk
    exact callConfined_verifySlot c kind i image s
  | _ => cases hk

/-- An entry whose range goes far beyond the end of the address space. -/
def wildEntry : PartitionEntry where
  name := .replicate _ 0x41
  offset := 0xfffffffffffff000
  length := 0xffffffff

def wildTable : PartitionTable :=
  { PartitionTable.empty with
    count := 2
    entries := (PartitionTable.empty.entries.set 0
      { name := #v[0x43, 0x50, 0x42, 0x30, 0, 0, 0, 0, 0, 0, 0, 0, 0, 0, 0, 0], offset := 0x1000,
        length := 0x1000 }).set 1 wildEntry }

def wildSession : Session ScriptedBlock where
  mailbox := {}
  layout := {}
  tableOffsets := (0, 0)

/-- A device of two tables, one of which is wild. -/
def wildState : SessionState ScriptedBlock (WatchedFlash EmulatedFlash) where
  channel := { registers := {} }
  flash := { device := { cells := ⟨(wildTable.encode ++ (PointerBlock.empty 8).encode).toArray⟩ } }

/-- Programming the slot of the wild entry is confined. -/
theorem malformed_confined_wild :
    Operable (fun _ => True) wildSession EmulatedFlash ∧ Strict.TablesInBounds ∧
      Strict.PartitionsInBounds ScriptedBlock EmulatedFlash 0x2000 ∧
      CallConfined wildSession (.programSlot .raw 1 [0x2a]) 1 (wildSession.programSlot .raw 1 [0x2a])
        wildState := by
  obtain ⟨hoperable, htables, hpartitions, hcalls⟩ :=
    malformed_confined (φ := EmulatedFlash) ScriptedBlock.responsive wildSession (by decide) (by decide)
  exact ⟨hoperable, htables, hpartitions _ (by decide), hcalls (.programSlot .raw 1 [0x2a]) 1 wildState rfl⟩

end Session

end RemoteUpdate
