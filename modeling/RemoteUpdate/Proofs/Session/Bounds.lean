import RemoteUpdate.Proofs.Session.Operations
import RemoteUpdate.Proofs.Table.Bounds

/-!
# Partitions in memory

The arithmetic of flash ranges, and of the comparison of a partition with an image, with the bounds of every
sum, product and slice checked as in the operations on tables. An entry may describe any range; on a device
whose capacity is a 64-bit word no step leaves its bounds.
-/

namespace RemoteUpdate

namespace Strict

variable {ρ φ α : Type}

def place? (t : PartitionTable) (name : String) : Option (Option UInt64) := do
  match ← findName? t name with
  | some i =>
    match ← entryAt? t i with
    | .ok e => return some e.offset
    | .error _ => return none
  | none => return none

/-- The range of an entry, with the sum that tells where it ends. -/
def partition? (capacity : ℕ) (e : PartitionEntry) : Option (Except FlashFault FlashPartition) := do
  let name := (String.fromUTF8? ⟨(← nameBytes? e).toArray⟩).getD "?"
  match add? e.offset.toNat e.length.toNat with
  | none => return .error .size
  | some stop =>
    if capacity < stop then return .error .size
    else if nameFieldSize < name.utf8ByteSize then return .error .invalid
    else return .ok { name, base := e.offset.toNat, length := e.length.toNat }

/-- The address of a range of a partition, which is a sum itself. -/
def locate? (p : FlashPartition) (offset length : ℕ) : Option (Except FlashFault ℕ) :=
  match add? offset length with
  | none => some (.error .size)
  | some stop =>
    if stop ≤ p.length then do return .ok (← add? p.base offset)
    else some (.error .size)

/-- Goes on with a value that was computed within its bounds, and aborts otherwise. -/
def bounded (a : Option α) : SessionM ρ φ α :=
  liftM (orAbort a)

/-- The image is compared in numbered chunks, each read into the front of a buffer. -/
def compare [FlashDevice φ] (p : FlashPartition) (index : ℕ) (expected : List UInt8) : SessionM ρ φ Unit := do
  if expected.isEmpty then return ()
  else
    let wanted := expected.take Session.compareStep
    let base ← bounded (mul? index Session.compareStep)
    let buffer ← bounded (front? (List.replicate Session.compareStep (0 : UInt8)) wanted.length)
    let address ← Session.onFlash (ExceptT.mk (pure (← bounded (locate? p base buffer.length))))
    let got ← Session.onFlash (FlashDevice.read address buffer.length)
    match Session.firstDifference got wanted with
    | some i =>
      let position ← bounded (add? base i)
      Session.log (.slotDiffers p.name position)
      throw (.verifyMismatch position)
    | none => compare p (index + 1) (expected.drop Session.compareStep)
termination_by expected.length
decreasing_by
  have : expected ≠ [] := by simpa using ‹¬expected.isEmpty = true›
  have := List.length_pos_iff.mpr this
  simp [Session.compareStep]
  omega

theorem place?_eq (t : PartitionTable) (name : String) : place? t name = some (Session.placeOf? t name) := by
  rw [place?, findName?_eq, Option.bind_eq_bind, Option.bind_some, Session.placeOf?]
  cases hi : t.findName? name with
  | none =>
    have hnone : t.listed.find? (·.isNamed name) = none :=
      List.find?_eq_none.mpr fun e he => Bool.eq_false_iff.mp (List.findIdx?_eq_none_iff.mp hi e he)
    rw [hnone]
    rfl
  | some i =>
    obtain ⟨hlt, hnamed, hfirst⟩ := List.findIdx?_eq_some_iff_getElem.mp hi
    have hfound : t.listed.find? (·.isNamed name) = some t.listed[i] :=
      List.find?_eq_some_iff_getElem.mpr ⟨hnamed, i, hlt, rfl, fun j hj => by simpa using hfirst j hj⟩
    have hentry : t.entry i = .ok t.listed[i] :=
      PartitionTable.entry_eq_ok_iff.mpr (List.getElem?_eq_getElem hlt)
    rw [hfound]
    simp only [entryAt?_eq, hentry, Option.bind_eq_bind, Option.bind_some]
    rfl

theorem partition?_eq {capacity : ℕ} (h : capacity < UInt64.size) (e : PartitionEntry) :
    partition? capacity e = some (FlashPartition.ofEntry capacity e) := by
  rw [partition?, nameBytes?_eq, Option.bind_eq_bind, Option.bind_some, FlashPartition.ofEntry,
    FlashPartition.make, PartitionEntry.nameText]
  by_cases hstop : e.offset.toNat + e.length.toNat < UInt64.size
  · simp only [add?_eq hstop]
    split
    · rfl
    · split <;> rfl
  · rw [add?_eq_none (Nat.not_lt.mp hstop), if_pos (by omega)]
    rfl

theorem locate?_eq {p : FlashPartition} (h : p.base + p.length < UInt64.size) (offset length : ℕ) :
    locate? p offset length =
      some (if offset + length ≤ p.length then .ok (p.base + offset) else .error .size) := by
  unfold locate?
  by_cases hstop : offset + length < UInt64.size
  · simp only [add?_eq hstop]
    split
    · rw [add?_eq (by omega)]
      rfl
    · rfl
  · rw [add?_eq_none (Nat.not_lt.mp hstop), if_neg (by omega)]

theorem bounded_some (a : α) : (bounded (some a) : SessionM ρ φ α) = pure a := rfl

theorem onFlash_ok {β : Type} (a : α) (f : α → SessionM ρ φ β) :
    (Session.onFlash (ExceptT.mk (pure (.ok a)) : FlashM φ α) >>= f) = f a := rfl

/-- The comparison goes on from chunk to chunk as it does from offset to offset. -/
theorem compare_eq [FlashDevice φ] {p : FlashPartition} (hp : p.base + p.length < UInt64.size) {index : ℕ}
    {expected : List UInt8} (hl : index * Session.compareStep + expected.length ≤ p.length) :
    (compare p index expected : SessionM ρ φ Unit) =
      Session.compare p (index * Session.compareStep) expected := by
  induction index, expected using compare.induct with
  | case1 index expected hnil => rw [compare, Session.compare, if_pos hnil, if_pos hnil]
  | case2 index expected hne ih =>
    have hwanted : (expected.take Session.compareStep).length ≤ Session.compareStep :=
      List.length_take_le _ _
    have htake : (expected.take Session.compareStep).length ≤ expected.length := List.length_take_le' _ _
    have hbuffer : ((List.replicate Session.compareStep (0 : UInt8)).take
        (expected.take Session.compareStep).length).length = (expected.take Session.compareStep).length := by
      rw [List.length_take, List.length_replicate, Nat.min_eq_left hwanted]
    have hbase : index * Session.compareStep < UInt64.size := by omega
    have hfront : front? (List.replicate Session.compareStep (0 : UInt8))
        (expected.take Session.compareStep).length = some ((List.replicate Session.compareStep (0 : UInt8)).take
          (expected.take Session.compareStep).length) :=
      front?_eq (by rwa [List.length_replicate])
    have hin : index * Session.compareStep + (expected.take Session.compareStep).length ≤ p.length := by omega
    -- every bound is known by now, so both do the same up to the first difference
    rw [compare, Session.compare, if_neg hne, if_neg hne]
    dsimp only
    rw [mul?_eq hbase, hfront, Session.read_eq hin]
    simp only [bounded_some, pure_bind, hbuffer, locate?_eq hp, if_pos hin, onFlash_ok]
    congr 1
    funext got
    cases hi : Session.firstDifference got (expected.take Session.compareStep) with
    | some i =>
      have := (Session.firstDifference_eq_some hi).inside
      simp only [add?_eq (show index * Session.compareStep + i < UInt64.size by omega), bounded_some, pure_bind]
    | none =>
      have hrest : (expected.drop Session.compareStep).length = expected.length - Session.compareStep :=
        List.length_drop
      dsimp only
      by_cases hlast : expected.length ≤ Session.compareStep
      · rw [List.drop_eq_nil_of_le hlast, compare, Session.compare, List.isEmpty_nil, if_pos rfl, if_pos rfl]
      · rw [ih (by rw [Nat.succ_mul]; omega), Nat.succ_mul]

/-! ### All of them -/

/-- What a session does with an entry that it has found, with the range of the entry and with the contents of
the range stays in bounds and gives what it says. -/
structure PartitionsInBounds (ρ φ : Type) [FlashDevice φ] (capacity : ℕ) : Prop where
  place (t : PartitionTable) (name : String) : place? t name = some (Session.placeOf? t name)
  partition (e : PartitionEntry) : partition? capacity e = some (FlashPartition.ofEntry capacity e)
  locate {e : PartitionEntry} {p : FlashPartition} (h : FlashPartition.ofEntry capacity e = .ok p)
    (offset length : ℕ) : (locate? p offset length).map (fun r => (ExceptT.mk (pure r) : FlashM φ ℕ)) =
      some (p.locate offset length)
  compare {e : PartitionEntry} {p : FlashPartition} (h : FlashPartition.ofEntry capacity e = .ok p)
    {image : List UInt8} (hi : image.length ≤ e.length.toNat) :
    (compare p 0 image : SessionM ρ φ Unit) = Session.compare p 0 image

theorem partitionsInBounds [FlashDevice φ] {capacity : ℕ} (h : capacity < UInt64.size) :
    PartitionsInBounds ρ φ capacity where
  place := place?_eq
  partition := partition?_eq h
  locate {e p} hp offset length := by
    obtain ⟨hbase, hlength, htop⟩ := Session.ofEntry_eq_ok hp
    unfold PartitionEntry.top at htop
    rw [locate?_eq (by omega), FlashPartition.locate]
    split <;> rfl
  compare {e p} hp image hi := by
    obtain ⟨hbase, hlength, htop⟩ := Session.ofEntry_eq_ok hp
    unfold PartitionEntry.top at htop
    rw [compare_eq (by omega) (by omega), Nat.zero_mul]

end Strict

end RemoteUpdate
