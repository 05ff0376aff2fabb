import RemoteUpdate.Proofs.Flash.Cells
import RemoteUpdate.Table.Partitions

/-!
# What the partition table lists

A table stands for the list of its entries: adding, removing and editing an entry are equations about
`listed`, and looking for a name or an overlap is a statement about its members.
-/

namespace RemoteUpdate

/-! ### Entries -/

def nameOf (name : String) : List UInt8 := name.toUTF8.data.toList

namespace PartitionEntry

variable {e e' : PartitionEntry} {name : String}

theorem isNamed_iff : e.isNamed name ↔ e.nameBytes = nameOf name := by
  simp [isNamed, nameOf]

def top (e : PartitionEntry) : ℕ := e.offset.toNat + e.length.toNat

/-- The partition and the range both end within 64 bits. -/
def Bounded (e : PartitionEntry) (offset : UInt64) (length : UInt32) : Prop :=
  e.top < UInt64.size ∧ offset.toNat + length.toNat < UInt64.size

/-- The partition ends before the range starts, or the other way round. -/
def Clear (e : PartitionEntry) (offset : UInt64) (length : UInt32) : Prop :=
  Cells.Apart offset.toNat length.toNat e.offset.toNat e.length.toNat

instance (e : PartitionEntry) (offset : UInt64) (length : UInt32) : Decidable (e.Bounded offset length) :=
  inferInstanceAs (Decidable (_ ∧ _))

instance (e : PartitionEntry) (offset : UInt64) (length : UInt32) : Decidable (e.Clear offset length) :=
  inferInstanceAs (Decidable (Cells.Apart ..))

theorem nameBytes_of_nameField {field : Vector UInt8 nameFieldSize} (h : nameField? name = some field) :
    ({ e with name := field } : PartitionEntry).nameBytes = nameOf name := by
  unfold nameField? at h
  dsimp only at h
  split at h
  · cases h
  next hb =>
    simp only [Option.some.injEq] at h
    subst h
    obtain ⟨⟨-, hlen⟩, hzero⟩ : (_ ∧ ¬ nameFieldSize ≤ name.toUTF8.data.size) ∧ 0 ∉ name.toUTF8.data := by
      simpa using hb
    -- the field is the name followed by null bytes, and a name holds none
    have split : (Vector.ofFn fun i : Fin nameFieldSize => name.toUTF8.data.getD i 0).toList =
        nameOf name ++ List.replicate (nameFieldSize - (nameOf name).length) 0 := by
      have hl : (nameOf name).length = name.toUTF8.data.size := Array.length_toList
      refine List.ext_getElem? fun i => ?_
      rw [Vector.toList_ofFn, List.getElem?_ofFn, List.getElem?_append, List.getElem?_replicate]
      by_cases hi : i < name.toUTF8.data.size
      · rw [dif_pos (by omega), if_pos (by omega), nameOf, Array.getElem?_toList,
          Array.getElem?_eq_getElem hi, Array.getD_eq_getD_getElem?, Array.getElem?_eq_getElem hi]
        rfl
      · rw [if_neg (by omega)]
        by_cases hf : i < nameFieldSize
        · rw [dif_pos hf, if_pos (by omega), Array.getD_eq_getD_getElem?,
            Array.getElem?_eq_none (Nat.not_lt.mp hi)]
          rfl
        · rw [dif_neg hf, if_neg (by omega)]
    have hn : ∀ b ∈ nameOf name, (b != 0) = true := by
      intro b hb
      have : b ≠ 0 := fun h => hzero (h ▸ Array.mem_toList_iff.mp hb)
      simpa using this
    unfold nameBytes
    rw [split, List.takeWhile_append_of_pos hn, List.takeWhile_replicate]
    simp

/-- A name as text is no longer than the field. -/
theorem utf8ByteSize_nameText (e : PartitionEntry) : e.nameText.utf8ByteSize ≤ nameFieldSize := by
  have hle : e.nameBytes.length ≤ nameFieldSize := by
    have hlen : e.name.toList.length = nameFieldSize := Vector.length_toList
    exact hlen ▸ (List.takeWhile_prefix _).length_le
  unfold nameText String.fromUTF8?
  split
  · exact hle
  · decide

/-- Renaming replaces the name and nothing else. -/
theorem rename_eq_ok (h : e.rename name = .ok e') : e'.nameBytes = nameOf name ∧
    e'.offset = e.offset ∧ e'.length = e.length ∧ e'.flags = e.flags := by
  unfold rename at h
  split at h
  next field hf =>
    obtain rfl := Except.ok.inj h
    exact ⟨nameBytes_of_nameField hf, rfl, rfl, rfl⟩
  · cases h

/-- The text can name an entry: one to fifteen bytes, none of which is zero. -/
def Nameable (name : String) : Prop :=
  0 < (nameOf name).length ∧ (nameOf name).length < nameFieldSize ∧ 0 ∉ nameOf name

instance (name : String) : Decidable (Nameable name) :=
  inferInstanceAs (Decidable (_ ∧ _ ∧ _))

/-- The entry under another name, padded with zeros. -/
def named (e : PartitionEntry) (name : String) : PartitionEntry :=
  { e with name := .ofFn fun i => (nameOf name).getD i 0 }

theorem rename_eq (e : PartitionEntry) (name : String) :
    e.rename name = if Nameable name then .ok (e.named name) else .error .invalidArgument := by
  have hlen : (nameOf name).length = name.toUTF8.data.size := Array.length_toList
  have hfield : nameField? name = if Nameable name then
      some (.ofFn fun i => (nameOf name).getD i 0) else none := by
    -- the check is on the UTF-8 bytes: some, few enough for the terminator, and none of them null
    have hcond : (name.toUTF8.data.isEmpty || decide (nameFieldSize ≤ name.toUTF8.data.size) ||
        name.toUTF8.data.contains 0) = true ↔ ¬ Nameable name := by
      unfold Nameable
      rw [hlen, nameOf, Array.mem_toList_iff, Bool.or_eq_true, Bool.or_eq_true,
        Array.isEmpty_iff_size_eq_zero, decide_eq_true_eq, Array.contains_iff_mem]
      by_cases h0 : (0 : UInt8) ∈ name.toUTF8.data
      · constructor
        · rintro - ⟨-, -, hno⟩
          exact hno h0
        · exact fun _ => Or.inr h0
      · simp only [h0, or_false, not_false_eq_true, and_true]
        omega
    unfold nameField?
    dsimp only
    by_cases h : Nameable name
    · rw [if_neg (fun hc => hcond.mp hc h), if_pos h]
      congr 2
      funext i
      rw [nameOf, Array.getD_eq_getD_getElem?, List.getD_eq_getElem?_getD, Array.getElem?_toList]
    · rw [if_pos (hcond.mpr h), if_neg h]
  unfold rename
  rw [hfield]
  split
  next field hf =>
    split at hf
    next hn =>
      obtain rfl := Option.some.inj hf
      rw [if_pos hn]
      rfl
    · cases hf
  next hf =>
    split at hf
    · cases hf
    next hn => rw [if_neg hn]

theorem isProtected_congr (h : e'.flags = e.flags) : e'.isProtected = e.isProtected := by
  simp only [isProtected, isReserved, isReadOnly, h]

end PartitionEntry

namespace PartitionTable

variable {t t' : PartitionTable} {e e' : PartitionEntry} {i : ℕ} {name : String}

/-! ### The list -/

theorem defect?_eq_none_iff :
    t.defect? = none ↔ t.magic = magicNumber ∧ t.count.toNat ≤ maxPartitions := by
  unfold defect?
  by_cases hm : t.magic = magicNumber
  · by_cases hc : maxPartitions < t.count.toNat
    · simp [hm, hc]
    · simp [hm, hc, Nat.not_lt.mp hc]
  · simp [hm]

theorem length_listed : t.listed.length = t.size := by
  unfold listed
  rw [List.length_take, Vector.length_toList]
  exact Nat.min_eq_left (Nat.min_le_right ..)

theorem getElem?_listed : t.listed[i]? = if i < t.size then t.entries.toList[i]? else none := by
  unfold listed
  rw [List.getElem?_take]

theorem entry_eq_ok_iff : t.entry i = .ok e ↔ t.listed[i]? = some e := by
  unfold entry
  cases t.listed[i]? <;> simp

theorem size_of_count {n : ℕ} (h : n ≤ maxPartitions) (ht : t.count = .ofNat n) : t.size = n := by
  have : n < UInt32.size := Nat.lt_of_le_of_lt h (by decide)
  rw [size, ht, UInt32.toNat_ofNat_of_lt' this]
  exact Nat.min_eq_left h

/-- A table with a good magic number and a count that fits can be used. -/
theorem defect?_of_count {n : ℕ} (h : n ≤ maxPartitions) (ht : t'.count = .ofNat n)
    (hm : t'.magic = t.magic) (hd : t.defect? = none) : t'.defect? = none := by
  have : n < UInt32.size := Nat.lt_of_le_of_lt h (by decide)
  rw [defect?_eq_none_iff] at hd ⊢
  exact ⟨hm.trans hd.1, by rwa [ht, UInt32.toNat_ofNat_of_lt' this]⟩

theorem push_eq_ok (h : t.push e = .ok (i, t')) :
    i = t.listed.length ∧ t'.listed = t.listed ++ [e] ∧ (t.defect? = none → t'.defect? = none) := by
  unfold push at h
  split at h
  next hroom =>
    obtain ⟨rfl, rfl⟩ := Prod.mk.inj (Except.ok.inj h)
    refine ⟨length_listed.symm, ?_, defect?_of_count hroom rfl rfl⟩
    have hl : t.size < t.entries.toList.length := by rwa [Vector.length_toList]
    rw [listed, size_of_count hroom rfl, Vector.toList_setIfInBounds, List.take_add_one,
      List.getElem?_set_self hl, List.take_set_of_le (Nat.le_refl _)]
    rfl
  · cases h

theorem remove_eq_ok (h : t.remove i = .ok (e, t')) :
    t.listed[i]? = some e ∧ t'.listed = t.listed.eraseIdx i ∧
      (t.defect? = none → t'.defect? = none) := by
  unfold remove at h
  cases he : t.entry i with
  | error f =>
    rw [he] at h
    cases h
  | ok removed =>
    rw [he] at h
    obtain ⟨rfl, rfl⟩ := Prod.mk.inj (Except.ok.inj h)
    rw [entry_eq_ok_iff] at he
    have hi : i < t.size := by
      rw [← length_listed]
      exact (List.getElem?_eq_some_iff.mp he).1
    have hs : t.size ≤ maxPartitions := Nat.min_le_right ..
    refine ⟨he, ?_, defect?_of_count (by omega) rfl rfl⟩
    refine List.ext_getElem? fun k => ?_
    rw [getElem?_listed, List.getElem?_eraseIdx, getElem?_listed, getElem?_listed,
      size_of_count (n := t.size - 1) (by omega) rfl, Vector.toList_ofFn, List.getElem?_ofFn]
    -- before the removed place nothing moves, and behind it each entry comes one place forward
    by_cases hk : k < t.size - 1
    · have hm : k + 1 < maxPartitions := by omega
      rw [if_pos hk, dif_pos (Nat.lt_of_succ_lt hm)]
      dsimp only
      by_cases hki : k < i
      · rw [if_pos hki, if_pos (Or.inl hki), if_pos (by omega), Vector.getElem?_toList,
          Vector.getElem?_eq_getElem (Nat.lt_of_succ_lt hm)]
        rfl
      · rw [if_neg hki, if_neg (by omega), if_pos (by omega), if_pos (by omega),
          Array.getD_eq_getD_getElem?, Vector.getElem?_toList, Vector.getElem?_eq_getElem hm,
          Vector.getElem?_toArray, Vector.getElem?_eq_getElem hm]
        rfl
    · rw [if_neg hk]
      split
      · rw [if_neg (by omega)]
      · rw [if_neg (by omega)]

theorem remove_of_listed (h : t.listed[i]? = some e) : ∃ t', t.remove i = .ok (e, t') := by
  unfold remove
  rw [entry_eq_ok_iff.mpr h]
  exact ⟨_, rfl⟩

theorem modifyEntry_eq_ok {edit : PartitionEntry → Except UpdateError PartitionEntry}
    (h : t.modifyEntry i edit = .ok t') : ∃ e e', t.listed[i]? = some e ∧ edit e = .ok e' ∧
      t'.listed = t.listed.set i e' ∧ (t.defect? = none → t'.defect? = none) := by
  unfold modifyEntry at h
  cases he : t.entry i with
  | error f =>
    rw [he] at h
    cases h
  | ok e =>
    rw [he] at h
    cases he' : edit e with
    | error f =>
      simp only [bind, Except.bind, he'] at h
      cases h
    | ok e' =>
      simp only [bind, Except.bind, he'] at h
      obtain rfl := Except.ok.inj h
      refine ⟨e, e', entry_eq_ok_iff.mp he, he', ?_, fun hd => hd⟩
      unfold listed
      rw [← List.take_set]
      simp [size]

theorem push_of_room (h : t.listed.length < maxPartitions) :
    ∃ t', t.push e = .ok (t.listed.length, t') := by
  rw [length_listed] at h ⊢
  unfold push
  rw [if_pos h]
  exact ⟨_, rfl⟩

theorem room_of_push (h : t.push e = .ok (i, t')) : t.listed.length < maxPartitions := by
  unfold push at h
  split at h
  next hroom => rwa [length_listed]
  · cases h

theorem modifyEntry_of_listed {edit : PartitionEntry → Except UpdateError PartitionEntry}
    (h : t.listed[i]? = some e) (he : edit e = .ok e') : ∃ t', t.modifyEntry i edit = .ok t' := by
  unfold modifyEntry
  rw [entry_eq_ok_iff.mpr h]
  refine ⟨{ t with entries := t.entries.setIfInBounds i e' }, ?_⟩
  simp only [bind, Except.bind, he]
  rfl

/-! ### Looking for entries -/

theorem findName?_eq_none_iff : t.findName? name = none ↔ ∀ e ∈ t.listed, e.nameBytes ≠ nameOf name := by
  unfold findName?
  rw [List.findIdx?_eq_none_iff]
  simp [PartitionEntry.isNamed_iff, Bool.eq_false_iff]

theorem findName?_eq_some (h : t.findName? name = some i) :
    ∃ e, t.listed[i]? = some e ∧ e.nameBytes = nameOf name := by
  unfold findName? at h
  obtain ⟨hi, hn, -⟩ := List.findIdx?_eq_some_iff_getElem.mp h
  exact ⟨t.listed[i], List.getElem?_eq_getElem hi, PartitionEntry.isNamed_iff.mp hn⟩

/-- Among distinct names the entry found is the one that has the name. -/
theorem find?_isNamed {l : List PartitionEntry} (hd : (l.map PartitionEntry.nameBytes).Nodup)
    (he : e ∈ l) (hn : e.nameBytes = nameOf name) : l.find? (·.isNamed name) = some e := by
  induction l with
  | nil => cases he
  | cons a l ih =>
    rw [List.map_cons, List.nodup_cons] at hd
    rcases List.mem_cons.mp he with rfl | he
    · exact List.find?_cons_of_pos (p := fun a : PartitionEntry => a.isNamed name) (PartitionEntry.isNamed_iff.mpr hn)
    · have ha : ¬ a.isNamed name := by
        rw [PartitionEntry.isNamed_iff, ← hn]
        exact fun h => hd.1 (h ▸ List.mem_map_of_mem he)
      rw [List.find?_cons_of_neg (p := fun a : PartitionEntry => a.isNamed name) ha]
      exact ih hd.2 he

theorem findOffset?_of_mem (he : e ∈ t.listed) :
    ∃ i f, t.findOffset? e.offset = some i ∧ t.listed[i]? = some f ∧ f.offset = e.offset := by
  unfold findOffset?
  cases hi : t.listed.findIdx? (·.offset == e.offset) with
  | none => simpa using List.findIdx?_eq_none_iff.mp hi e he
  | some i =>
    obtain ⟨hlt, ho, -⟩ := List.findIdx?_eq_some_iff_getElem.mp hi
    exact ⟨i, _, rfl, List.getElem?_eq_getElem hlt, by simpa using ho⟩

theorem rangeEnd_eq_ok {offset : UInt64} {length : UInt32} {n : ℕ} (h : rangeEnd offset length = .ok n) :
    n = offset.toNat + length.toNat := by
  unfold rangeEnd at h
  split at h
  · exact (Except.ok.inj h).symm
  · cases h

theorem rangeEnd_of_lt {offset : UInt64} {length : UInt32}
    (h : offset.toNat + length.toNat < UInt64.size) :
    rangeEnd offset length = .ok (offset.toNat + length.toNat) := if_pos h

theorem rangeEnd_of_not_lt {offset : UInt64} {length : UInt32}
    (h : ¬ offset.toNat + length.toNat < UInt64.size) :
    rangeEnd offset length = .error .invalidArgument := if_neg h

theorem stop_of_lt (h : e.top < UInt64.size) : e.stop = .ok e.top := rangeEnd_of_lt h

/-! ### Looking for overlaps -/

section Overlaps

variable {offset : UInt64} {length : UInt32} {l : List PartitionEntry}

theorem overlaps_eq (e : PartitionEntry) (offset : UInt64) (length : UInt32) :
    e.overlaps offset length =
      if e.Bounded offset length then .ok !(decide (e.Clear offset length)) else .error .invalidArgument := by
  have hclear : (!decide (e.Clear offset length)) = (decide (offset.toNat < e.top) &&
      decide (e.offset.toNat < offset.toNat + length.toNat)) := by
    rw [← Bool.decide_and, ← decide_not, decide_eq_decide]
    unfold PartitionEntry.Clear Cells.Apart PartitionEntry.top
    omega
  rw [hclear, PartitionEntry.overlaps]
  by_cases h : e.Bounded offset length
  · rw [if_pos h, stop_of_lt h.1, rangeEnd_of_lt h.2]
    rfl
  · rw [if_neg h]
    by_cases he : e.top < UInt64.size
    · rw [stop_of_lt he, rangeEnd_of_not_lt fun hq => h ⟨he, hq⟩]
      rfl
    · rw [PartitionEntry.stop, rangeEnd_of_not_lt he]
      rfl

/-- The search goes on behind an entry that is apart from the range. -/
theorem firstOverlap_cons : firstOverlap offset length (e :: l) =
    if e.Bounded offset length then
      if e.Clear offset length then (firstOverlap offset length l).map (·.map (· + 1)) else .ok (some 0)
    else .error .invalidArgument := by
  rw [firstOverlap, overlaps_eq]
  split
  · by_cases hclear : e.Clear offset length
    · rw [if_pos hclear, decide_eq_true hclear]
      cases firstOverlap offset length l <;> rfl
    · rw [if_neg hclear, decide_eq_false hclear]
      rfl
  · rfl

theorem firstOverlap_eq_none_iff :
    firstOverlap offset length l = .ok none ↔ ∀ e ∈ l, e.Bounded offset length ∧ e.Clear offset length := by
  induction l with
  | nil => simp [firstOverlap]
  | cons e l ih =>
    rw [firstOverlap_cons, List.forall_mem_cons, ← ih]
    by_cases hb : e.Bounded offset length
    · by_cases hc : e.Clear offset length
      · rw [if_pos hb, if_pos hc]
        cases firstOverlap offset length l <;> simp [Except.map, hb, hc]
      · simp [hb, hc]
    · simp [hb]

/-- A range in which no overlap is found shares no byte with the partitions looked at. -/
theorem firstOverlap_eq_none (h : firstOverlap offset length l = .ok none) (he : e ∈ l) :
    ¬ (offset.toNat < e.top ∧ e.offset.toNat < offset.toNat + length.toNat) := by
  have hclear := (firstOverlap_eq_none_iff.mp h e he).2
  unfold PartitionEntry.Clear Cells.Apart at hclear
  unfold PartitionEntry.top
  omega

/-- A range of 64-bit addresses that is apart from partitions of 64-bit addresses overlaps none. -/
theorem firstOverlap_of_apart (hrange : offset.toNat + length.toNat < UInt64.size)
    (hl : ∀ e ∈ l, e.top < UInt64.size)
    (h : ∀ e ∈ l, Cells.Apart offset.toNat length.toNat e.offset.toNat e.length.toNat) :
    firstOverlap offset length l = .ok none :=
  firstOverlap_eq_none_iff.mpr fun e he => ⟨⟨hl e he, hrange⟩, h e he⟩

end Overlaps

end PartitionTable

end RemoteUpdate
