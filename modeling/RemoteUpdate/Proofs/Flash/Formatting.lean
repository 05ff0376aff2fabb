import RemoteUpdate.Flash.Plan
import RemoteUpdate.Proofs.Runs
import RemoteUpdate.Proofs.Flash.Changes
import RemoteUpdate.Proofs.Session.Directory
import RemoteUpdate.Proofs.Table.Codec

/-!
# Plans and what formatting writes

A plan made from the standard one by adding partitions has an entry for each standard partition, and its
entries are a good listing. Formatting a device is a list of changes that is known beforehand.
-/

namespace RemoteUpdate

open Session (placeOf? replaceChanges)

namespace FlashPlan

/-- The plans made from the standard one for a device with so many bytes: partitions that are not empty
and lie in the device are added, and the slots of the pointer block are counted anew. -/
inductive Reachable (size : ℕ) : FlashPlan → Prop
  | standard {p : FlashPlan} (made : FlashPlan.standard = .ok p) : Reachable size p
  | addPartition {p p' : FlashPlan} {i : ℕ} {name : String} {offset : UInt64} {length flags : UInt32}
      (before : Reachable size p) (added : p.addPartition name offset length flags = .ok (i, p'))
      (sized : 0 < length) (inside : offset.toNat + length.toNat ≤ size) : Reachable size p'
  | withSlots {p : FlashPlan} (slots : ℕ) (before : Reachable size p) : Reachable size (p.withSlots slots)

/-- The entry is a standard partition. -/
def Matches (part : String × UInt64 × UInt32) (e : PartitionEntry) : Prop :=
  e.nameBytes = nameOf part.1 ∧ e.offset = part.2.1 ∧ e.length = part.2.2 ∧
    e.flags = PartitionEntry.reservedFlag

/-- What adding partitions keeps. -/
structure Sound (size : ℕ) (p : FlashPlan) : Prop where
  listing : Listing size p.table.listed
  usable : p.table.defect? = none
  offsets : p.tableOffsets = (0x100000, 0x108000)
  slots : ∃ n, p.block = .empty n

variable {size i : ℕ} {p p' : FlashPlan} {name : String} {offset : UInt64} {length flags : UInt32}

theorem addPartition_eq_ok (h : p.addPartition name offset length flags = .ok (i, p')) :
    ∃ e t, PartitionEntry.make name offset length flags = .ok e ∧ p.table.findName? name = none ∧
      p.table.findOverlap offset length = .ok none ∧ p.table.push e = .ok (i, t) ∧
      p' = { p with table := t } := by
  unfold addPartition at h
  -- the checks in their order: the name, the overlap, the entry itself, room in the table
  split at h
  · cases h
  next hn =>
    cases ho : p.table.findOverlap offset length with
    | error f =>
      rw [ho] at h
      cases h
    | ok meets =>
      rw [ho] at h
      simp only [bind, Except.bind, pure, Except.pure] at h
      split at h
      · cases h
      next hm =>
        cases he : PartitionEntry.make name offset length flags with
        | error f =>
          rw [he] at h
          cases h
        | ok e =>
          rw [he] at h
          simp only at h
          cases hp : p.table.push e with
          | error f =>
            rw [hp] at h
            cases h
          | ok pushed =>
            rw [hp] at h
            obtain ⟨rfl, rfl⟩ := Prod.mk.inj (Except.ok.inj h)
            refine ⟨e, pushed.2, rfl, by simpa using hn, ?_, hp, rfl⟩
            cases meets with
            | none => rfl
            | some k => exact absurd rfl hm

theorem Sound.addPartition (h : Sound size p)
    (added : p.addPartition name offset length flags = .ok (i, p')) (sized : 0 < length)
    (inside : offset.toNat + length.toNat ≤ size) : Sound size p' ∧
      ∃ e, p'.table.listed = p.table.listed ++ [e] ∧ e.nameBytes = nameOf name ∧ e.offset = offset ∧
        e.length = length ∧ e.flags = flags := by
  obtain ⟨e, t, made, fresh, apart, pushed, rfl⟩ := addPartition_eq_ok added
  obtain ⟨hname, ho, hlen, hflags⟩ := PartitionEntry.rename_eq_ok made
  obtain ⟨-, hl, hdef⟩ := PartitionTable.push_eq_ok pushed
  refine ⟨⟨?_, hdef h.usable, h.offsets, h.slots⟩, e, hl, hname, ho, hlen, hflags⟩
  show Listing size t.listed
  rw [hl]
  refine h.listing.insert made fresh ?_ ?_ apart
  · rintro rfl
    exact absurd sized (by decide)
  · unfold PartitionEntry.top
    rwa [ho, hlen]

theorem Sound.addAll {parts : List (String × UInt64 × UInt32)} (h : Sound size p)
    (made : parts.foldlM (fun p s => do
      return (← p.addPartition s.1 s.2.1 s.2.2 PartitionEntry.reservedFlag).2) p = .ok p')
    (hin : ∀ s ∈ parts, 0 < s.2.2 ∧ s.2.1.toNat + s.2.2.toNat ≤ size) : Sound size p' ∧
      (∀ e ∈ p.table.listed, e ∈ p'.table.listed) ∧
        ∀ s ∈ parts, ∃ e ∈ p'.table.listed, Matches s e := by
  -- an addition keeps what is listed, so the induction carries each part through to the end
  induction parts generalizing p with
  | nil =>
    obtain rfl := Except.ok.inj made
    exact ⟨h, fun _ => id, by simp⟩
  | cons part parts ih =>
    rw [List.foldlM_cons] at made
    cases ha : p.addPartition part.1 part.2.1 part.2.2 PartitionEntry.reservedFlag with
    | error f =>
      rw [ha] at made
      cases made
    | ok added =>
      rw [ha] at made
      obtain ⟨hs, e, hl, hm⟩ := h.addPartition ha (hin part List.mem_cons_self).1
        (hin part List.mem_cons_self).2
      obtain ⟨hs', hkeep, hall⟩ := ih hs made fun s hm => hin s (List.mem_cons_of_mem _ hm)
      refine ⟨hs', ?_, ?_⟩
      · intro f hf
        exact hkeep f (by rw [hl]; exact List.mem_append_left _ hf)
      · intro s hm'
        rcases List.mem_cons.mp hm' with rfl | hm'
        · exact ⟨e, hkeep e (by rw [hl]; simp), hm⟩
        · exact hall s hm'

theorem sound_empty (size : ℕ) : Sound size {} where
  listing := by
    have : (({} : FlashPlan).table.listed) = [] := rfl
    rw [this]
    exact ⟨by simp, by simp, by simp, by simp⟩
  usable := by decide
  offsets := rfl
  slots := ⟨_, rfl⟩

def standardSize : ℕ := 0x120000

/-- A plan for a large enough device is sound and has all standard partitions. -/
theorem Reachable.sound (h : Reachable size p) (hsize : standardSize ≤ size) : Sound size p ∧
    ∀ part ∈ standardPartitions, ∃ e ∈ p.table.listed, Matches part e := by
  induction h with
  | standard made =>
    obtain ⟨hs, -, hall⟩ := (sound_empty size).addAll made fun part hp => by
      have : ∀ part ∈ standardPartitions, 0 < part.2.2 ∧
          part.2.1.toNat + part.2.2.toNat ≤ standardSize := by decide
      exact ⟨(this part hp).1, Nat.le_trans (this part hp).2 hsize⟩
    exact ⟨hs, hall⟩
  | addPartition before added sized inside ih =>
    obtain ⟨hs, hall⟩ := ih
    obtain ⟨hs', e, hl, -⟩ := hs.addPartition added sized inside
    refine ⟨hs', ?_⟩
    intro part hp
    obtain ⟨f, hf, hm⟩ := hall part hp
    exact ⟨f, by rw [hl]; exact List.mem_append_left _ hf, hm⟩
  | withSlots slots before ih =>
    obtain ⟨hs, hall⟩ := ih
    exact ⟨⟨hs.listing, hs.usable, hs.offsets, slots, rfl⟩, hall⟩

theorem Reachable.mono {size' : ℕ} (h : Reachable size p) (hs : size ≤ size') : Reachable size' p := by
  induction h with
  | standard made => exact .standard made
  | addPartition before added sized inside ih =>
    exact .addPartition ih added sized (Nat.le_trans inside hs)
  | withSlots slots before ih => exact .withSlots slots ih

theorem Sound.placeOf? {part : String × UInt64 × UInt32} {e : PartitionEntry} (h : Sound size p)
    (he : e ∈ p.table.listed) (hm : Matches part e) : placeOf? p.table part.1 = some part.2.1 := by
  unfold Session.placeOf?
  rw [PartitionTable.find?_isNamed h.listing.names he hm.1, Option.map_some, hm.2.1]

/-- The pointer blocks have their places, on a device of any size. -/
theorem Reachable.places (h : Reachable size p) : p.tableOffsets = (0x100000, 0x108000) ∧
    Session.placeOf? p.table "CPB0" = some 0x110000 ∧ Session.placeOf? p.table "CPB1" = some 0x118000 := by
  obtain ⟨hs, hall⟩ := (h.mono (Nat.le_max_left size standardSize)).sound (Nat.le_max_right ..)
  obtain ⟨e, he, hm⟩ := hall ("CPB0", 0x110000, metadataSize) (by decide)
  obtain ⟨e', he', hm'⟩ := hall ("CPB1", 0x118000, metadataSize) (by decide)
  exact ⟨hs.offsets, hs.placeOf? he hm, hs.placeOf? he' hm'⟩

/-! ### Formatting -/

variable {φ : Type} [FlashDevice φ]

/-- The program makes the changes, and fails as the first of them that fails. -/
def Writes (x : FormatM φ Unit) (changes : List FlashChange) : Prop :=
  ∀ f, Ends x f (((playAll changes).outcome f).1.mapError .flash) ((playAll changes).outcome f).2

theorem Writes.bind {x y : FormatM φ Unit} {l l' : List FlashChange} (h : Writes x l)
    (h' : Writes y l') : Writes (do x; y) (l ++ l') := by
  intro f
  have hx := h f
  rcases hp : (playAll l).outcome f with ⟨fault | ⟨⟨⟩⟩, g⟩
  · rw [hp] at hx
    rw [playAll_append_error hp]
    exact hx.bind_error
  · rw [hp] at hx
    rw [playAll_append_ok hp]
    exact hx.bind (h' g)

theorem writes_pure : Writes (pure () : FormatM φ Unit) [] := fun f => Ends.pure () f

theorem writes_change (change : FlashChange) : Writes (φ := φ) (FlashM.report change.play) [change] := by
  intro f
  have h : Ends (FlashM.report change.play) f ((change.play.outcome f).1.mapError .flash)
      (change.play.outcome f).2 := fun log => ⟨log, rfl⟩
  rw [playAll]
  rcases hp : (change.play : FlashM φ Unit).outcome f with ⟨fault | ⟨⟨⟩⟩, g⟩
  · rw [hp] at h
    rw [outcome_bind_error hp]
    exact h
  · rw [hp] at h
    rw [outcome_bind_ok hp]
    exact h

theorem writes_writeTable (offset : UInt64) (bytes : List UInt8) :
    Writes (φ := φ) (writeTable offset bytes) (replaceChanges offset metadataSize.toNat bytes) :=
  (writes_change (.erase offset.toNat metadataSize.toNat)).bind
    (writes_change (.write offset.toNat bytes))

theorem writes_writeBlock (p : FlashPlan) (name : String) : Writes (φ := φ) (p.writeBlock name)
    ((placeOf? p.table name).toList.flatMap fun place =>
      replaceChanges place metadataSize.toNat p.block.encode) := by
  unfold writeBlock Session.placeOf?
  cases p.table.listed.find? (·.isNamed name) with
  | none => exact writes_pure
  | some e =>
    rw [Option.map_some, Option.toList_some, List.flatMap_singleton]
    exact writes_writeTable e.offset p.block.encode

theorem writes_blocks (p : FlashPlan) (names : List String) : Writes (φ := φ) (names.forM p.writeBlock)
    ((names.filterMap (placeOf? p.table)).flatMap fun place =>
      replaceChanges place metadataSize.toNat p.block.encode) := by
  induction names with
  | nil => exact writes_pure
  | cons name names ih =>
    have hall := (writes_writeBlock p name).bind ih
    rw [List.filterMap_cons]
    cases hplace : placeOf? p.table name with
    | none =>
      rw [hplace] at hall
      exact hall
    | some place =>
      rw [hplace, Option.toList_some, List.flatMap_singleton] at hall
      exact hall

/-- Where formatting puts which bytes, in this order. -/
def placements (p : FlashPlan) : List (UInt64 × List UInt8) :=
  [(p.tableOffsets.1, p.table.encode), (p.tableOffsets.2, p.table.encode)] ++
    (blockNames.filterMap (placeOf? p.table)).map (·, p.block.encode)

theorem writes_format (p : FlashPlan) : Writes (φ := φ) p.format
    (p.placements.flatMap fun x => replaceChanges x.1 metadataSize.toNat x.2) := by
  have hlog (e : Event) : Writes (φ := φ) (emit e) [] := fun f log => ⟨log.push e, rfl⟩
  have hall := (writes_writeTable (φ := φ) p.tableOffsets.1 p.table.encode).bind
    ((writes_writeTable p.tableOffsets.2 p.table.encode).bind
      ((writes_blocks p blockNames).bind (hlog (.formatted p.table.size p.block.size))))
  rw [List.append_nil] at hall
  unfold placements
  rw [List.flatMap_append, List.flatMap_map, List.flatMap_cons, List.flatMap_singleton, List.append_assoc]
  exact hall

/-- The changes that formatting with a plan of the standard layout makes. -/
def formatChanges (p : FlashPlan) : List FlashChange :=
  replaceChanges 0x100000 metadataSize.toNat p.table.encode ++
    (replaceChanges 0x108000 metadataSize.toNat p.table.encode ++
      (replaceChanges 0x110000 metadataSize.toNat p.block.encode ++
        replaceChanges 0x118000 metadataSize.toNat p.block.encode))

theorem Reachable.writes_format (h : Reachable size p) : Writes (φ := φ) p.format (formatChanges p) := by
  obtain ⟨ho, h₀, h₁⟩ := h.places
  have hplaces : blockNames.filterMap (placeOf? p.table) = [0x110000, 0x118000] := by
    rw [blockNames, List.filterMap_cons_some h₀, List.filterMap_cons_some h₁, List.filterMap_nil]
  have hall := FlashPlan.writes_format (φ := φ) p
  unfold placements at hall
  rw [ho, hplaces] at hall
  simpa [formatChanges] using hall

/-- Formatting stays within the partitions of the tables. -/
theorem inside_formatChanges (p : FlashPlan) : ∀ change ∈ formatChanges p,
    0x100000 ≤ change.address ∧ change.address + change.length ≤ standardSize := by
  have ht : p.table.encode.length = tableSize := p.table.length_encode
  have hb : p.block.encode.length = tableSize := p.block.length_encode
  have : standardSize = 0x120000 := rfl
  have : metadataSize.toNat = 0x8000 := rfl
  have : tableSize = 0x1000 := rfl
  intro change hc
  simp only [formatChanges, replaceChanges, List.mem_append, List.mem_cons, List.not_mem_nil,
    or_false] at hc
  rcases hc with (rfl | rfl) | (rfl | rfl) | (rfl | rfl) | (rfl | rfl) <;>
    · simp only [FlashChange.address, FlashChange.length, UInt64.reduceToNat]
      omega

theorem fits_formatChanges {cells : ByteArray} (p : FlashPlan) (hsize : standardSize ≤ cells.size) :
    ∀ change ∈ formatChanges p, change.Fits cells :=
  fun change hc => (inside_formatChanges p change hc).2.trans hsize

def plain : FlashPlan := FlashPlan.standard.toOption.getD {}

theorem standard_eq : FlashPlan.standard = .ok plain := by
  have : FlashPlan.standard.toBool = true := by decide +kernel
  unfold plain
  cases hs : FlashPlan.standard with
  | ok p => rfl
  | error f =>
    rw [hs] at this
    cases this

end FlashPlan

end RemoteUpdate
