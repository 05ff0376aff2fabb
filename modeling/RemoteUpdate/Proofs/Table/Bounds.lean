import RemoteUpdate.Proofs.Table.Partitions
import RemoteUpdate.Proofs.Table.BootOrder

/-!
# Tables in memory

The operations on tables as they go through memory: entries and pointers are reached by index, cut out as
slices and moved in place, and counts are machine words. Each of these steps has bounds, and what leaves them
is given up as `none`. Whatever a table holds, no step leaves its bounds, and what is computed step by step is
what the operations on tables say.
-/

namespace RemoteUpdate

namespace Strict

variable {α β : Type} {n : ℕ}

/-! ### Steps with bounds -/

/-- A sum of two 64-bit words. -/
def add? (a b : ℕ) : Option ℕ :=
  if a + b < UInt64.size then some (a + b) else none

def mul? (a b : ℕ) : Option ℕ :=
  if a * b < UInt64.size then some (a * b) else none

def sub? (a b : ℕ) : Option ℕ :=
  if b ≤ a then some (a - b) else none

def add32? (a b : UInt32) : Option UInt32 :=
  if a.toNat + b.toNat < UInt32.size then some (a + b) else none

def sub32? (a b : UInt32) : Option UInt32 :=
  if b ≤ a then some (a - b) else none

/-- The slice of the first `k` items. -/
def front? (l : List α) (k : ℕ) : Option (List α) :=
  if k ≤ l.length then some (l.take k) else none

def put? (l : List α) (i : ℕ) (a : α) : Option (List α) :=
  if i < l.length then some (l.set i a) else none

/-- The items with those from `k` on replaced by one value. -/
def fill? (l : List α) (k : ℕ) (a : α) : Option (List α) :=
  if k ≤ l.length then some (l.take k ++ List.replicate (l.length - k) a) else none

def store? (v : Vector α n) (i : ℕ) (a : α) : Option (Vector α n) :=
  if i < n then some (v.setIfInBounds i a) else none

/-- An array with its first items replaced by those of a list. -/
def paste? (v : Vector α n) (l : List α) : Option (Vector α n) :=
  if l.length ≤ n then some (.ofFn fun k => l.getD k (v.get k)) else none

/-- An array with the items from `first` to `last` copied to `target`, as they were before. -/
def move? (v : Vector α n) (first last target : ℕ) : Option (Vector α n) :=
  if first ≤ last ∧ last ≤ n ∧ target + (last - first) ≤ n then
    some (.ofFn fun k =>
      if target ≤ k ∧ k < target + (last - first) then v.toArray.getD (first + (k - target)) (v.get k)
      else v.get k)
  else none

/-- The position of the first item that passes a test, which may leave its bounds. -/
def position? (test : α → Option Bool) : List α → Option (Option ℕ)
  | [] => some none
  | a :: rest => do
    if ← test a then return some 0
    return (← position? test rest).map (· + 1)

theorem add?_eq {a b : ℕ} (h : a + b < UInt64.size) : add? a b = some (a + b) := if_pos h

theorem add?_eq_none {a b : ℕ} (h : UInt64.size ≤ a + b) : add? a b = none := if_neg (Nat.not_lt.mpr h)

theorem mul?_eq {a b : ℕ} (h : a * b < UInt64.size) : mul? a b = some (a * b) := if_pos h

theorem sub?_eq {a b : ℕ} (h : b ≤ a) : sub? a b = some (a - b) := if_pos h

theorem add32?_eq {a b : ℕ} (h : a + b < UInt32.size) : add32? (.ofNat a) (.ofNat b) = some (.ofNat (a + b)) := by
  have ha : (UInt32.ofNat a).toNat = a := UInt32.toNat_ofNat_of_lt' (by omega)
  have hb : (UInt32.ofNat b).toNat = b := UInt32.toNat_ofNat_of_lt' (by omega)
  rw [add32?, ha, hb, if_pos h, UInt32.ofNat_add]

theorem add32?_one {a : ℕ} (h : a + 1 < UInt32.size) : add32? (.ofNat a) 1 = some (.ofNat (a + 1)) :=
  add32?_eq h

theorem sub32?_eq {a b : ℕ} (hb : b ≤ a) (h : a < UInt32.size) :
    sub32? (.ofNat a) (.ofNat b) = some (.ofNat (a - b)) := by
  have hle : UInt32.ofNat b ≤ .ofNat a := by
    rw [UInt32.le_iff_toNat_le, UInt32.toNat_ofNat_of_lt' h, UInt32.toNat_ofNat_of_lt' (by omega)]
    exact hb
  rw [sub32?, if_pos hle, UInt32.ofNat_sub hb]

theorem sub32?_one {a : ℕ} (ha : 0 < a) (h : a < UInt32.size) : sub32? (.ofNat a) 1 = some (.ofNat (a - 1)) :=
  sub32?_eq ha h

theorem front?_eq {l : List α} {k : ℕ} (h : k ≤ l.length) : front? l k = some (l.take k) := if_pos h

theorem put?_eq {l : List α} {i : ℕ} {a : α} (h : i < l.length) : put? l i a = some (l.set i a) := if_pos h

theorem store?_eq {v : Vector α n} {i : ℕ} {a : α} (h : i < n) : store? v i a = some (v.setIfInBounds i a) :=
  if_pos h

/-- Moving the items behind one of them down, and blanking the last, leaves that one out. -/
theorem move?_down (v : Vector α n) (a : α) {i size : ℕ} (hi : i < size) (hs : size ≤ n) :
    ∃ moved, move? v (i + 1) size i = some moved ∧ moved.setIfInBounds (size - 1) a =
      .ofFn fun k => if k < i ∨ size ≤ k then v[k]
        else if k + 1 < size then v.toArray.getD (k + 1) a else a := by
  refine ⟨_, if_pos ⟨hi, hs, by omega⟩, ?_⟩
  ext k hk
  rw [Vector.getElem_setIfInBounds hk, Vector.getElem_ofFn, Vector.getElem_ofFn]
  dsimp only
  by_cases hlast : size - 1 = k
  · rw [if_pos hlast, if_neg (by omega), if_neg (by omega)]
  · rw [if_neg hlast]
    by_cases hout : k < i ∨ size ≤ k
    · rw [if_pos hout, if_neg (by omega)]
      rfl
    · have hnext : i + 1 + (k - i) = k + 1 := by omega
      have hk' : k + 1 < v.toArray.size := by
        rw [v.size_toArray]
        omega
      rw [if_neg hout, if_pos (by omega), if_pos (by omega), hnext, Array.getD_eq_getD_getElem?,
        Array.getD_eq_getD_getElem?, Array.getElem?_eq_getElem hk']
      rfl

/-- If all lookups succeed, the first item found is the first that passes. -/
theorem position?_eq {look : α → Option β} {test : β → Bool} {l : List α} {found : List β}
    (h : l.map look = found.map some) :
    position? (fun a => do return test (← look a)) l = some (found.findIdx? test) := by
  induction l generalizing found with
  | nil =>
    obtain rfl : found = [] := List.map_eq_nil_iff.mp h.symm
    rfl
  | cons a l ih =>
    cases found with
    | nil => cases h
    | cons x found =>
      obtain ⟨ha, hl⟩ := List.cons.inj h
      rw [position?, ha, ih hl, List.findIdx?_cons]
      cases hx : test x <;> simp [hx]

/-! ### Entries -/

/-- The name, cut off at its first zero. -/
def nameBytes? (e : PartitionEntry) : Option (List UInt8) :=
  front? e.name.toList ((e.name.toList.findIdx? (· == 0)).getD nameFieldSize)

/-- The name field is zeroed and the new name copied over it. -/
def rename? (e : PartitionEntry) (name : String) : Option (Except UpdateError PartitionEntry) :=
  let bytes := name.toUTF8.data.toList
  if bytes.isEmpty || nameFieldSize ≤ bytes.length || bytes.contains 0 then
    some (.error .invalidArgument)
  else do
    let field ← paste? (.replicate nameFieldSize 0) bytes
    return .ok { e with name := field }

theorem nameBytes?_eq (e : PartitionEntry) : nameBytes? e = some e.nameBytes := by
  have hl : e.name.toList.length = nameFieldSize := Vector.length_toList
  have hi : (e.name.toList.findIdx? (· == 0)).getD nameFieldSize = e.name.toList.findIdx (· == 0) := by
    rw [List.findIdx_eq_getD_findIdx?, hl]
  rw [nameBytes?, hi, front?_eq List.findIdx_le_length, PartitionEntry.nameBytes,
    List.takeWhile_eq_take_findIdx_not]
  simp only [bne, Bool.not_not]

theorem rename?_eq (e : PartitionEntry) (name : String) : rename? e name = some (e.rename name) := by
  unfold rename? PartitionEntry.rename PartitionEntry.nameField?
  dsimp only
  have hc : (name.toUTF8.data.toList.isEmpty || nameFieldSize ≤ name.toUTF8.data.toList.length ||
      name.toUTF8.data.toList.contains 0) = (name.toUTF8.data.isEmpty ||
        nameFieldSize ≤ name.toUTF8.data.size || name.toUTF8.data.contains 0) := by
    simp
  rw [hc]
  split
  · rfl
  next h =>
    have hl : name.toUTF8.data.toList.length ≤ nameFieldSize := by
      simp only [Bool.not_eq_true, Bool.or_eq_false_iff, decide_eq_false_iff_not] at h
      rw [Array.length_toList]
      omega
    have hfield : paste? (.replicate nameFieldSize 0) name.toUTF8.data.toList =
        some (.ofFn fun i => name.toUTF8.data.getD i 0) := by
      rw [paste?, if_pos hl, Option.some.injEq]
      ext k hk
      simp [List.getD_eq_getElem?_getD, Array.getD_eq_getD_getElem?, Vector.get]
    rw [hfield]
    rfl

/-! ### Partition tables -/

section Tables

variable (t : PartitionTable) (e : PartitionEntry) (i : ℕ)

/-- The listed entries are a slice of all entries. -/
def listed? : Option (List PartitionEntry) :=
  front? t.entries.toList t.size

def entryAt? : Option (Except UpdateError PartitionEntry) := do
  match (← listed? t)[i]? with
  | some e => return .ok e
  | none => return .error .notFound

/-- The entry is renamed in place. -/
def renameAt? (name : String) : Option (Except UpdateError PartitionTable) := do
  match (← listed? t)[i]? with
  | some e =>
    match ← rename? e name with
    | .ok e =>
      let entries ← store? t.entries i e
      return .ok { t with entries }
    | .error failure => return .error failure
  | none => return .error .notFound

def findName? (name : String) : Option (Option ℕ) := do
  position? (fun e => do return (← nameBytes? e) == name.toUTF8.data.toList) (← listed? t)

/-- The first entry that shares a byte with the range is found, and looked up by its index. -/
def overlapping? (offset : UInt64) (length : UInt32) :
    Option (Except UpdateError (Option PartitionEntry)) := do
  match PartitionTable.firstOverlap offset length (← listed? t) with
  | .ok (some i) => return .ok (some (← (← listed? t)[i]?))
  | .ok none => return .ok none
  | .error failure => return .error failure

/-- The entry is stored behind the listed ones. -/
def push? : Option (Except UpdateError (ℕ × PartitionTable)) :=
  if maxPartitions ≤ t.size then some (.error .invalidArgument)
  else do
    let entries ← store? t.entries t.size e
    let count ← add32? (.ofNat t.size) 1
    return .ok (t.size, { t with entries, count })

/-- The entries behind the removed one are moved down by one, and the last of them is blanked. -/
def remove? : Option (Except UpdateError (PartitionEntry × PartitionTable)) :=
  if t.size ≤ i then some (.error .notFound)
  else do
    let removed ← t.entries[i]?
    let moved ← move? t.entries (← add? i 1) t.size i
    let entries ← store? moved (← sub? t.size 1) .blank
    let count ← sub32? (.ofNat t.size) 1
    return .ok (removed, { t with entries, count })

theorem size_le : t.size ≤ maxPartitions := Nat.min_le_right ..

theorem listed?_eq : listed? t = some t.listed := by
  refine front?_eq ?_
  rw [Vector.length_toList]
  exact size_le t

theorem entryAt?_eq : entryAt? t i = some (t.entry i) := by
  rw [entryAt?, listed?_eq, Option.bind_eq_bind, Option.bind_some, PartitionTable.entry]
  cases t.listed[i]? <;> rfl

theorem renameAt?_eq (name : String) :
    renameAt? t i name = some (t.modifyEntry i (·.rename name)) := by
  rw [renameAt?, listed?_eq, Option.bind_eq_bind, Option.bind_some, PartitionTable.modifyEntry,
    PartitionTable.entry]
  cases he : t.listed[i]? with
  | none => rfl
  | some e =>
    have hi : i < maxPartitions := by
      have hlisted := (List.getElem?_eq_some_iff.mp he).1
      rw [PartitionTable.length_listed] at hlisted
      exact Nat.lt_of_lt_of_le hlisted (size_le t)
    simp only [rename?_eq, Option.bind_some, bind, Except.bind]
    cases e.rename name with
    | error failure => rfl
    | ok e =>
      simp only [store?_eq hi]
      rfl

theorem findName?_eq (name : String) : findName? t name = some (t.findName? name) := by
  have hnames : t.listed.map nameBytes? = (t.listed.map PartitionEntry.nameBytes).map some := by
    rw [List.map_map]
    exact List.map_congr_left fun e _ => nameBytes?_eq e
  rw [findName?, listed?_eq, Option.bind_eq_bind, Option.bind_some, position?_eq hnames, List.findIdx?_map]
  rfl

/-- An entry that overlaps is one of those that were looked at. -/
theorem lt_of_firstOverlap {offset : UInt64} {length : UInt32} {l : List PartitionEntry} {i : ℕ}
    (h : PartitionTable.firstOverlap offset length l = .ok (some i)) : i < l.length := by
  induction l generalizing i with
  | nil => cases h
  | cons e l ih =>
    rw [PartitionTable.firstOverlap_cons] at h
    split at h
    · split at h
      · cases hl : PartitionTable.firstOverlap offset length l with
        | error failure =>
          rw [hl] at h
          cases h
        | ok found =>
          rw [hl] at h
          obtain ⟨j, rfl, rfl⟩ := Option.map_eq_some_iff.mp (Except.ok.inj h)
          exact Nat.succ_lt_succ (ih hl)
      · obtain rfl := Option.some.inj (Except.ok.inj h)
        exact Nat.succ_pos _
    · cases h

theorem overlapping?_eq (offset : UInt64) (length : UInt32) :
    overlapping? t offset length = some ((t.findOverlap offset length).map
      (·.map fun i => (t.listed[i]?).getD .blank)) := by
  simp only [overlapping?, listed?_eq, Option.bind_eq_bind, Option.bind_some, PartitionTable.findOverlap]
  cases h : PartitionTable.firstOverlap offset length t.listed with
  | error failure => rfl
  | ok found =>
    cases found with
    | none => rfl
    | some i =>
      have hi := List.getElem?_eq_getElem (lt_of_firstOverlap h)
      simp only [Except.map, Option.map_some, hi]
      rfl

theorem push?_eq : push? t e = some (t.push e) := by
  unfold push? PartitionTable.push
  have := size_le t
  by_cases h : t.size < maxPartitions
  · rw [if_neg (by omega), if_pos h, store?_eq h, add32?_one (Nat.lt_of_le_of_lt h (by decide))]
    rfl
  · rw [if_pos (by omega), if_neg h]

/-- Moving the entries down and blanking the last is leaving one entry out. -/
theorem remove?_eq : remove? t i = some (t.remove i) := by
  unfold remove? PartitionTable.remove PartitionTable.entry
  have hsize := size_le t
  have hmax : maxPartitions = 127 := rfl
  have hwords : UInt64.size = 2 ^ 64 := rfl
  by_cases hi : t.size ≤ i
  · rw [if_pos hi, PartitionTable.getElem?_listed, if_neg (by omega)]
    rfl
  · have hentry : t.entries[i]? = some t.entries[i] := Vector.getElem?_eq_getElem (by omega)
    obtain ⟨moved, hmove, hstore⟩ := move?_down t.entries .blank (Nat.lt_of_not_le hi) hsize
    rw [if_neg hi, PartitionTable.getElem?_listed, if_pos (by omega), Vector.getElem?_toList, hentry,
      add?_eq (by omega), sub?_eq (by omega),
      sub32?_one (by omega) (Nat.lt_of_le_of_lt hsize (by decide))]
    simp only [bind, Option.bind_some, Except.bind, hmove, store?_eq (show t.size - 1 < maxPartitions by omega),
      hstore]
    rfl

end Tables

/-! ### Pointer blocks -/

section Blocks

variable (b : PointerBlock) (p : UInt64)

/-- The slots in use are a slice of all pointers. -/
def slots? : Option (List UInt64) :=
  front? b.pointers.toList b.size

/-- The slots that hold a pointer, from the last one in use down. -/
def order? : Option (List ℕ) := do
  return ((← slots? b).zipIdx.reverse.filter fun s => isPointer s.1).map (·.2)

/-- The slots are gone through in boot order, and the pointer of each is looked up. -/
def rank? : Option ℕ := do
  match ← position? (fun i => do return (← b.pointers[i]?) == p) (← order? b) with
  | some i => return (← add32? (.ofNat i) 1).toNat
  | none => return 0

/-- One slot is packed: its pointer goes to the next slot, if it holds one. -/
def packSlot? (packed : List UInt64 × ℕ) (i : ℕ) : Option (List UInt64 × ℕ) := do
  let q ← packed.1[i]?
  if isPointer q then return (← put? packed.1 packed.2 q, ← add? packed.2 1) else return packed

/-- The slots are packed in place, one after the other, and those behind the last pointer erased. -/
def compact? : Option (ℕ × PointerBlock) := do
  let slots ← slots? b
  let (slots, next) ← (List.range slots.length).foldlM packSlot? (slots, 0)
  return (next, b.withSlots (← fill? slots next erasedPointer))

def disable? : Option (Bool × PointerBlock) := do
  let slots ← slots? b
  let held := fun q => isPointer q && q == p
  return (slots.any held, b.withSlots (slots.map fun q => if held q then clearedPointer else q))

/-- The slot above the topmost pointer. -/
def above? : Option ℕ := do
  match (← order? b).head? with
  | some top => add? top 1
  | none => return 0

/-- The pointer is stored above the topmost one, or behind the others once they have been packed. -/
def raise? : Option PointerBlock := do
  let above ← above? b
  let (target, b) ← if (← slots? b).length ≤ above then compact? b else some (above, b)
  return b.withSlots (← put? (← slots? b) target p)

def enable? : Option (Except PlacementError Bool × PointerBlock) := do
  if !isPointer p || (← slots? b).isEmpty then return (.error .noSlot, b)
  let top ← (← order? b).head?.mapM (b.pointers[·]?)
  if top == some p then return (.ok false, b)
  let (_, b) ← disable? b p
  if (← slots? b).all isPointer then return (.error .full, b)
  return (.ok true, ← raise? b p)

theorem slots?_eq : slots? b = some b.slots := by
  refine front?_eq ?_
  rw [Vector.length_toList]
  exact b.size_le

theorem order?_eq : order? b = some b.order := by
  rw [order?, slots?_eq]
  rfl

theorem getElem?_order : b.order.map (b.pointers[·]?) = b.priorities.map some := by
  have hfst : b.slots.reverse = b.slots.zipIdx.reverse.map Prod.fst := by
    rw [List.map_reverse, List.zipIdx_map_fst]
  rw [PointerBlock.order, PointerBlock.priorities, hfst, List.filter_map, List.map_map, List.map_map]
  refine List.map_congr_left fun s hs => ?_
  have hmem := List.mem_zipIdx_iff_getElem?.mp (List.mem_reverse.mp (List.mem_filter.mp hs).1)
  rw [PointerBlock.slots, List.getElem?_take] at hmem
  split at hmem
  · rwa [Vector.getElem?_toList] at hmem
  · cases hmem

theorem head?_order : b.order.head?.mapM (b.pointers[·]?) = some b.priorities.head? := by
  have h := getElem?_order b
  cases ho : b.order with
  | nil =>
    rw [ho] at h
    rw [List.map_eq_nil_iff.mp h.symm]
    rfl
  | cons i rest =>
    rw [ho] at h
    cases hp : b.priorities with
    | nil =>
      rw [hp] at h
      cases h
    | cons q others =>
      rw [hp] at h
      have hq := (List.cons.inj h).1
      simp [hq]

theorem rank?_eq : rank? b p = some (b.rank p) := by
  rw [rank?, order?_eq, Option.bind_eq_bind, Option.bind_some, position?_eq (getElem?_order b),
    Option.bind_eq_bind, Option.bind_some, PointerBlock.rank]
  cases hi : b.priorities.findIdx? (· == p) with
  | none => rfl
  | some i =>
    have hlt : i < b.priorities.length := (List.findIdx?_eq_some_iff_getElem.mp hi).1
    have hle := b.length_priorities_le
    have hsize := b.size_le
    have hmax : maxPointers = 508 := rfl
    have hword : i + 1 < UInt32.size := Nat.lt_of_le_of_lt (show i + 1 ≤ 508 by omega) (by decide)
    simp only [add32?_one hword, Option.bind_eq_bind, Option.bind_some,
      UInt32.toNat_ofNat_of_lt' hword]
    rfl

/-- After so many turns the pointers of as many slots are packed, and what is behind them is as it was. -/
theorem foldlM_packSlot? {slots : List UInt64} (hl : slots.length < UInt64.size) {n : ℕ}
    (hn : n ≤ slots.length) :
    (List.range n).foldlM packSlot? (slots, 0) =
      some (((slots.take n).filter isPointer) ++ slots.drop ((slots.take n).filter isPointer).length,
        ((slots.take n).filter isPointer).length) := by
  -- after n slots the pointers among them stand in front, followed by what was there before
  induction n with
  | zero => rfl
  | succ n ih =>
    have hslot : slots[n]? = some slots[n] := List.getElem?_eq_getElem hn
    rw [List.range_succ, List.foldlM_append, ih (Nat.le_of_succ_le hn), List.take_add_one, hslot,
      List.filter_append]
    generalize hheld : (slots.take n).filter isPointer = held
    have hle : held.length ≤ n := by
      rw [← hheld]
      exact Nat.le_trans (List.length_filter_le _ _) (List.length_take_le _ _)
    have hlen : held.length < slots.length := Nat.lt_of_le_of_lt hle hn
    have hnow : (held ++ slots.drop held.length)[n]? = some slots[n] := by
      rw [List.getElem?_append_right hle, List.getElem?_drop, ← hslot]
      congr 1
      omega
    have hadd : add? held.length 1 = some (held.length + 1) := add?_eq (by omega)
    simp only [Option.bind_eq_bind, Option.bind_some, List.foldlM_cons, List.foldlM_nil, packSlot?, hnow]
    cases hp : isPointer slots[n] with
    | false => simp [hp]
    | true =>
      have hput : put? (held ++ slots.drop held.length) held.length slots[n] =
          some (held ++ [slots[n]] ++ slots.drop (held.length + 1)) := by
        have hin : held.length < (held ++ slots.drop held.length).length := by
          rw [List.length_append, List.length_drop]
          omega
        rw [put?_eq hin, List.set_append_right _ _ (Nat.le_refl _), Nat.sub_self, List.drop_eq_getElem_cons hlen,
          List.set_cons_zero, List.append_assoc]
        rfl
      simp [hp, hput, hadd]

theorem compact?_eq : compact? b = some b.compact := by
  have hsize : b.slots.length < UInt64.size := by
    rw [b.length_slots]
    exact Nat.lt_of_le_of_lt b.size_le (by decide)
  have hpack := foldlM_packSlot? hsize (Nat.le_refl _)
  rw [List.take_length] at hpack
  have hle := List.length_filter_le isPointer b.slots
  have hlen : (b.slots.filter isPointer ++ b.slots.drop (b.slots.filter isPointer).length).length =
      b.slots.length := by
    rw [List.length_append, List.length_drop]
    omega
  rw [compact?, slots?_eq, Option.bind_eq_bind, Option.bind_some, hpack, Option.bind_eq_bind, Option.bind_some]
  dsimp only
  rw [fill?, hlen, if_pos hle, List.take_left]
  rfl

theorem withSlots_slots : b.withSlots b.slots = b := by
  have hpointers : (b.withSlots b.slots).pointers = b.pointers := by
    ext k hk
    rw [PointerBlock.withSlots, Vector.getElem_ofFn]
    dsimp only
    split
    next hin =>
      rw [Array.getD_eq_getD_getElem?, List.getElem?_toArray, PointerBlock.slots, List.getElem?_take_of_lt hin,
        Vector.getElem?_toList, Vector.getElem?_eq_getElem hk]
      rfl
    · rfl
  calc b.withSlots b.slots = { b with pointers := (b.withSlots b.slots).pointers } := rfl
    _ = b := by rw [hpointers]

theorem disable?_eq : disable? b p = some (b.disable p) := by
  rw [disable?, slots?_eq, Option.bind_eq_bind, Option.bind_some, PointerBlock.disable]
  cases hp : isPointer p with
  | false =>
    have hnone : ∀ q, (isPointer q && q == p) = false := by
      intro q
      by_cases hq : q = p
      · simp [hq, hp]
      · simp [hq]
    simp [hnone, withSlots_slots]
  | true =>
    have hheld : ∀ q, (isPointer q && q == p) = (q == p) := by
      intro q
      by_cases hq : q = p
      · simp [hq, hp]
      · simp [hq]
    simp only [hheld, Bool.true_and]
    by_cases hm : p ∈ b.slots
    · have hany : b.slots.any (· == p) = true := List.any_eq_true.mpr ⟨p, hm, beq_self_eq_true p⟩
      rw [if_pos (List.contains_iff_mem.mpr hm), hany]
      rfl
    · have hne : ∀ q ∈ b.slots, ¬ (q == p) = true := fun q hq h => hm (beq_iff_eq.mp h ▸ hq)
      have hsame : (b.slots.map fun q => if (q == p) = true then clearedPointer else q) = b.slots :=
        (List.map_congr_left fun q hq => if_neg (hne q hq)).trans (List.map_id _)
      have hany : b.slots.any (· == p) = false := List.any_eq_false.mpr hne
      rw [if_neg (fun h => hm (List.contains_iff_mem.mp h)), hsame, withSlots_slots, hany]
      rfl

theorem above?_eq : above? b = some b.above := by
  have hle := b.above_spec.1
  rw [above?, order?_eq, Option.bind_eq_bind, Option.bind_some]
  unfold PointerBlock.above at hle ⊢
  cases ho : b.order.head? with
  | none => rfl
  | some top =>
    rw [ho] at hle
    exact add?_eq (Nat.lt_of_le_of_lt (Nat.le_trans hle b.size_le) (by decide))

/-- There is a slot to store the pointer in unless all slots are taken. -/
theorem raise?_eq {target : ℕ} {raised : PointerBlock} (hfull : ¬ b.slots.all isPointer)
    (h : (if b.above < b.size then (b.above, b) else b.compact) = (target, raised)) :
    raise? b p = some (raised.withSlots (raised.slots.set target p)) := by
  have hpacked : (b.slots.filter isPointer).length < b.compact.2.slots.length := by
    rw [PointerBlock.slots_compact, PointerBlock.length_packSlots, List.length_filter_lt_length_iff_exists]
    simpa using hfull
  simp only [raise?, above?_eq, slots?_eq, compact?_eq, Option.bind_eq_bind, Option.bind_some, b.length_slots]
  split at h
  next hroom =>
    obtain ⟨rfl, rfl⟩ := Prod.mk.inj h
    rw [if_neg (Nat.not_le.mpr hroom), put?_eq (by rwa [b.length_slots])]
    rfl
  next hroom =>
    obtain ⟨rfl, rfl⟩ := Prod.mk.inj h
    have hput := put?_eq (a := p) hpacked
    rw [if_pos (Nat.not_lt.mp hroom)]
    exact congrArg (Option.bind · _) hput

theorem enable?_eq : enable? b p = some (b.enable p) := by
  simp only [enable?, slots?_eq, order?_eq, disable?_eq, Option.bind_eq_bind, Option.bind_some, head?_order]
  by_cases hp : (!isPointer p || b.slots.isEmpty) = true
  · rw [if_pos hp, PointerBlock.enable, if_pos hp]
    rfl
  by_cases htop : (b.priorities.head? == some p) = true
  · rw [if_neg hp, if_pos htop, PointerBlock.enable, if_neg hp, if_pos htop]
    rfl
  rw [if_neg hp, if_neg htop]
  by_cases hfull : (b.disable p).2.slots.all isPointer = true
  · rw [if_pos hfull, PointerBlock.enable, if_neg hp, if_neg htop]
    dsimp only
    rw [if_pos hfull]
    rfl
  rw [if_neg hfull]
  obtain ⟨⟨target, raised⟩, hraised⟩ : ∃ r, (if (b.disable p).2.above < (b.disable p).2.size then
      ((b.disable p).2.above, (b.disable p).2) else (b.disable p).2.compact) = r := ⟨_, rfl⟩
  rw [PointerBlock.enable_eq_raise hp htop hfull hraised, raise?_eq _ p hfull hraised]
  rfl

end Blocks

/-! ### All of them -/

/-- Every operation on a table or on a pointer block that a session uses, gone through in memory, stays in
bounds and gives what it says. -/
structure TablesInBounds : Prop where
  nameBytes (e : PartitionEntry) : nameBytes? e = some e.nameBytes
  rename (e : PartitionEntry) (name : String) : rename? e name = some (e.rename name)
  listed (t : PartitionTable) : listed? t = some t.listed
  entry (t : PartitionTable) (i : ℕ) : entryAt? t i = some (t.entry i)
  renameEntry (t : PartitionTable) (i : ℕ) (name : String) :
    renameAt? t i name = some (t.modifyEntry i (·.rename name))
  findName (t : PartitionTable) (name : String) : findName? t name = some (t.findName? name)
  overlapping (t : PartitionTable) (offset : UInt64) (length : UInt32) :
    overlapping? t offset length = some ((t.findOverlap offset length).map
      (·.map fun i => (t.listed[i]?).getD .blank))
  push (t : PartitionTable) (e : PartitionEntry) : push? t e = some (t.push e)
  remove (t : PartitionTable) (i : ℕ) : remove? t i = some (t.remove i)
  slots (b : PointerBlock) : slots? b = some b.slots
  order (b : PointerBlock) : order? b = some b.order
  rank (b : PointerBlock) (p : UInt64) : rank? b p = some (b.rank p)
  compact (b : PointerBlock) : compact? b = some b.compact
  disable (b : PointerBlock) (p : UInt64) : disable? b p = some (b.disable p)
  enable (b : PointerBlock) (p : UInt64) : enable? b p = some (b.enable p)

theorem tablesInBounds : TablesInBounds :=
  ⟨nameBytes?_eq, rename?_eq, listed?_eq, entryAt?_eq, renameAt?_eq, findName?_eq, overlapping?_eq, push?_eq,
    remove?_eq, slots?_eq, order?_eq, rank?_eq, compact?_eq, disable?_eq, enable?_eq⟩

end Strict

end RemoteUpdate
