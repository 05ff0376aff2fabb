import Mathlib.Data.Nat.Digits.Lemmas
import RemoteUpdate.Proofs.Table.Codec

/-!
# Where the fields of a table stand

The tables in flash are laid out word by word, least significant byte first, and `LaidOut` says which
bytes each field is. A list of bytes that is long enough holds one table and no other, and that table is
written as the same bytes again.
-/

namespace RemoteUpdate

namespace Table

/-! ### Numbers in bytes -/

/-- The number that `width` bytes from position `i` on make, least significant byte first. -/
def numberAt (bytes : List UInt8) (i width : ℕ) : ℕ :=
  Nat.ofDigits 256 (((bytes.drop i).take width).map UInt8.toNat)

section Numbers

variable {l : List UInt8} {i : ℕ}

theorem numberAt_add (a b : ℕ) (h : i + a ≤ l.length) :
    numberAt l i (a + b) = numberAt l i a + 256 ^ a * numberAt l (i + a) b := by
  have ha : (((l.drop i).take a).map UInt8.toNat).length = a := by
    rw [List.length_map, List.length_take, List.length_drop]
    omega
  unfold numberAt
  rw [List.take_add, List.map_append, Nat.ofDigits_append, ha, List.drop_drop]

theorem bytes_inj {as bs : List UInt8} (hl : as.length = bs.length)
    (h : Nat.ofDigits 256 (as.map UInt8.toNat) = Nat.ofDigits 256 (bs.map UInt8.toNat)) :
    as = bs := by
  have small (cs : List UInt8) : ∀ n ∈ cs.map UInt8.toNat, n < 256 := by
    intro n hn
    obtain ⟨c, -, rfl⟩ := List.mem_map.mp hn
    exact c.toNat_lt
  have e := Nat.ofDigits_inj_of_len_eq (by decide) (by simpa using hl) (small as) (small bs) h
  exact List.map_injective_iff.mpr (fun _ _ => UInt8.toNat_inj.mp) e

/-- The bytes that make a number stand where that number is read. -/
theorem standsAt_of_numberAt {bytes : List UInt8} (hi : i + bytes.length ≤ l.length)
    (h : numberAt bytes 0 bytes.length = numberAt l i bytes.length) : StandsAt bytes i l := by
  refine List.prefix_iff_eq_take.mpr (bytes_inj ?_ ?_)
  · rw [List.length_take, List.length_drop]
    omega
  · simpa [numberAt] using h

theorem toNat_shiftLeft_byte (b : UInt8) {k : ℕ} (hk : k ≤ 24) :
    (b.toUInt32 <<< UInt32.ofNat k).toNat = 2 ^ k * b.toNat := by
  have hb := b.toNat_lt
  have hs : (UInt32.ofNat k).toNat % 32 = k := by
    rw [UInt32.toNat_ofNat', Nat.mod_eq_of_lt (by omega), Nat.mod_eq_of_lt (by omega)]
  rw [UInt32.toNat_shiftLeft, hs, UInt8.toNat_toUInt32, Nat.shiftLeft_eq, Nat.mul_comm]
  refine Nat.mod_eq_of_lt ?_
  calc 2 ^ k * b.toNat < 2 ^ k * 2 ^ 8 := Nat.mul_lt_mul_of_pos_left hb (by positivity)
    _ = 2 ^ (k + 8) := (Nat.pow_add ..).symm
    _ ≤ 2 ^ 32 := Nat.pow_le_pow_right (by decide) (by omega)

theorem toNat_word32At (h : i + 4 ≤ l.length) : (word32At l.toArray i).toNat = numberAt l i 4 := by
  obtain ⟨a, b, c, d, rest, hl⟩ : ∃ a b c d rest, l.drop i = a :: b :: c :: d :: rest := by
    match hd : l.drop i with
    | a :: b :: c :: d :: rest => exact ⟨a, b, c, d, rest, rfl⟩
    | [] | [_] | [_, _] | [_, _, _] =>
      have := congrArg List.length hd
      simp at this
      omega
  have at_ : StandsAt [a, b, c, d] i l := ⟨rest, hl.symm⟩
  have ha := at_.getD (k := 0) (by simp)
  have hb := at_.getD (k := 1) (by simp)
  have hc := at_.getD (k := 2) (by simp)
  have hd := at_.getD (k := 3) (by simp)
  rw [Nat.add_zero] at ha
  have na := a.toNat_lt
  have nb := b.toNat_lt
  have nc := c.toNat_lt
  -- the four bytes do not overlap once shifted, so the disjunction is a sum
  have word : (word32At l.toArray i).toNat =
      a.toNat + 2 ^ 8 * b.toNat + 2 ^ 16 * c.toNat + 2 ^ 24 * d.toNat := by
    unfold word32At
    rw [ha, hb, hc, hd, UInt32.toNat_or, UInt32.toNat_or, UInt32.toNat_or, UInt8.toNat_toUInt32]
    simp only [List.getElem_cons_zero, List.getElem_cons_succ]
    rw [show (8 : UInt32) = UInt32.ofNat 8 from rfl, show (16 : UInt32) = UInt32.ofNat 16 from rfl,
      show (24 : UInt32) = UInt32.ofNat 24 from rfl, toNat_shiftLeft_byte b (by omega),
      toNat_shiftLeft_byte c (by omega), toNat_shiftLeft_byte d (by omega),
      or_two_pow_mul b.toNat (by omega), or_two_pow_mul c.toNat (by omega),
      or_two_pow_mul d.toNat (by omega)]
  have number : numberAt l i 4 =
      a.toNat + 256 * (b.toNat + 256 * (c.toNat + 256 * d.toNat)) := by
    unfold numberAt
    rw [hl]
    simp [Nat.ofDigits_cons]
  rw [word, number]
  ring

theorem toNat_word64At (h : i + 8 ≤ l.length) : (word64At l.toArray i).toNat = numberAt l i 8 := by
  have low := toNat_word32At (l := l) (i := i) (by omega)
  have high := toNat_word32At (l := l) (i := i + 4) (by omega)
  rw [numberAt_add 4 4 (by omega), ← low, ← high, word64At, toNat_halves, show (256 : ℕ) ^ 4 = 2 ^ 32 by decide]

/-! ### Words at a position -/

theorem standsAt_word32 {w : UInt32} (hi : i + 4 ≤ l.length) (h : w.toNat = numberAt l i 4) :
    StandsAt (word32 w) i l := by
  refine standsAt_of_numberAt hi ?_
  have own := toNat_word32At (l := word32 w) (i := 0) (by rw [length_word32])
  rw [word32At_of_standsAt standsAt_self] at own
  rw [length_word32, ← own, h]

theorem standsAt_word64 {w : UInt64} (hi : i + 8 ≤ l.length) (h : w.toNat = numberAt l i 8) :
    StandsAt (word64 w) i l := by
  refine standsAt_of_numberAt hi ?_
  have own := toNat_word64At (l := word64 w) (i := 0) (by rw [length_word64])
  rw [word64At_of_standsAt standsAt_self] at own
  rw [length_word64, ← own, h]

theorem StandsAt.append {bytes bytes' : List UInt8} {j : ℕ} (h : StandsAt bytes i l)
    (h' : StandsAt bytes' j l) (hj : j = i + bytes.length) : StandsAt (bytes ++ bytes') i l := by
  obtain ⟨rest, hr⟩ := h
  rw [StandsAt, hj, ← List.drop_drop, ← hr, List.drop_left] at h'
  obtain ⟨rest', hr'⟩ := h'
  exact ⟨rest', by rw [List.append_assoc, hr', hr]⟩

/-- Fields of equal width, each at its place, stand there one after the other. -/
theorem standsAt_flatMap_of {α : Type} (f : α → List UInt8) {w : ℕ} (hw : ∀ x, (f x).length = w)
    {xs : List α} {i : ℕ}
    (h : ∀ (k : ℕ) (hk : k < xs.length), StandsAt (f xs[k]) (i + w * k) l) :
    StandsAt (xs.flatMap f) i l := by
  induction xs generalizing i with
  | nil => exact List.nil_prefix
  | cons x xs ih =>
    have first := h 0 (by simp)
    have later : StandsAt (xs.flatMap f) (i + w) l := by
      refine ih fun k hk => ?_
      have := h (k + 1) (by simpa using hk)
      rwa [List.getElem_cons_succ, Nat.mul_succ, Nat.add_comm (w * k), ← Nat.add_assoc] at this
    exact first.append later (by rw [hw, Nat.mul_zero, Nat.add_zero])

end Numbers

/-! ### Codecs -/

/-- Writing a table and reading it are inverse to each other. A table fills `tableSize` bytes; fewer
bytes are refused, more are ignored, and a table is read where its fields are laid out. -/
structure ExactCodec {α : Type} (encode : α → List UInt8)
    (decode : List UInt8 → Except UpdateError α) (LaidOut : α → List UInt8 → Prop) : Prop where
  length_encode : ∀ t, (encode t).length = tableSize
  decode_encode : ∀ t, decode (encode t) = .ok t
  encode_decode : ∀ bytes t, decode bytes = .ok t → encode t = bytes.take tableSize
  decode_eq_error_iff : ∀ bytes e,
    decode bytes = .error e ↔ bytes.length < tableSize ∧ e = .invalidArgument
  decode_eq_ok_iff : ∀ bytes t, decode bytes = .ok t ↔ tableSize ≤ bytes.length ∧ LaidOut t bytes
  decode_append : ∀ bytes rest, tableSize ≤ bytes.length → decode (bytes ++ rest) = decode bytes

section Codec

variable {α : Type} {encode : α → List UInt8} {decode : List UInt8 → Except UpdateError α}
  {LaidOut : α → List UInt8 → Prop}

/-- For an exact codec it is enough that what is read is laid out, and what is laid out stands in the
bytes as it is written. -/
theorem ExactCodec.of_laidOut (length_encode : ∀ t, (encode t).length = tableSize)
    (decode_encode : ∀ t, decode (encode t) = .ok t)
    (short : ∀ bytes : List UInt8, bytes.length < tableSize → decode bytes = .error .invalidArgument)
    (long : ∀ bytes : List UInt8, tableSize ≤ bytes.length →
      ∃ t, decode bytes = .ok t ∧ LaidOut t bytes)
    (standsAt : ∀ t bytes, tableSize ≤ bytes.length → LaidOut t bytes →
      StandsAt (encode t) 0 bytes) : ExactCodec encode decode LaidOut := by
  -- what is laid out in a text fixes its front, so a text has one table and a table one text
  have written {t bytes} (hb : tableSize ≤ bytes.length) (ht : LaidOut t bytes) :
      encode t = bytes.take tableSize := by
    have := List.prefix_iff_eq_take.mp (standsAt t bytes hb ht)
    rwa [length_encode, List.drop_zero] at this
  have inj {t t'} (h : encode t = encode t') : t = t' := by
    have := congrArg decode h
    rw [decode_encode, decode_encode] at this
    exact Except.ok.inj this
  have read {bytes t} (h : decode bytes = .ok t) : tableSize ≤ bytes.length ∧ LaidOut t bytes := by
    rcases Nat.lt_or_ge bytes.length tableSize with hb | hb
    · rw [short bytes hb] at h
      cases h
    · obtain ⟨t', e, ht'⟩ := long bytes hb
      cases h.symm.trans e
      exact ⟨hb, ht'⟩
  refine ⟨length_encode, decode_encode, fun bytes t h => written (read h).1 (read h).2,
    fun bytes e => ⟨fun h => ?_, fun ⟨hb, he⟩ => he ▸ short bytes hb⟩,
    fun bytes t => ⟨read, fun ⟨hb, ht⟩ => ?_⟩, fun bytes rest hb => ?_⟩
  · rcases Nat.lt_or_ge bytes.length tableSize with hb | hb
    · rw [short bytes hb] at h
      exact ⟨hb, (Except.error.inj h).symm⟩
    · obtain ⟨t, e', -⟩ := long bytes hb
      cases h.symm.trans e'
  · obtain ⟨t', e, ht'⟩ := long bytes hb
    rw [e, inj ((written hb ht').trans (written hb ht).symm)]
  · have hr : tableSize ≤ (bytes ++ rest).length := by
      rw [List.length_append]
      omega
    obtain ⟨t, e, ht⟩ := long bytes hb
    obtain ⟨t', e', ht'⟩ := long (bytes ++ rest) hr
    have same : encode t' = encode t := by
      rw [written hb ht, written hr ht', List.take_append_of_le_length hb]
    rw [e, e', inj same]

end Codec

end Table

open Table

/-! ### Partition tables -/

/-- The bytes of an entry from position `i` on: sixteen of the name, the offset as two words, the lower
one first, the length and the flags. -/
structure PartitionEntry.LaidOut (e : PartitionEntry) (bytes : List UInt8) (i : ℕ) : Prop where
  name : e.name.toList = (bytes.drop i).take 16
  offset_low : e.offset.toNat % 2 ^ 32 = numberAt bytes (i + 16) 4
  offset_high : e.offset.toNat / 2 ^ 32 = numberAt bytes (i + 20) 4
  length : e.length.toNat = numberAt bytes (i + 24) 4
  flags : e.flags.toNat = numberAt bytes (i + 28) 4

/-- The bytes of a partition table: eight header words, then the entries. -/
structure PartitionTable.LaidOut (t : PartitionTable) (bytes : List UInt8) : Prop where
  magic : t.magic.toNat = numberAt bytes 0 4
  version : t.version.toNat = numberAt bytes 4 4
  count : t.count.toNat = numberAt bytes 8 4
  reserved : ∀ (k : ℕ) (hk : k < 5), t.reserved[k].toNat = numberAt bytes (12 + 4 * k) 4
  entries : ∀ (k : ℕ) (hk : k < maxPartitions), t.entries[k].LaidOut bytes (32 + 32 * k)

/-- The bytes of a pointer block: eight header words, then the pointers. -/
structure PointerBlock.LaidOut (b : PointerBlock) (bytes : List UInt8) : Prop where
  magic : b.magic.toNat = numberAt bytes 0 4
  headerSize : b.headerSize.toNat = numberAt bytes 4 4
  totalSize : b.totalSize.toNat = numberAt bytes 8 4
  reserved1 : b.reserved1.toNat = numberAt bytes 12 4
  pointerOffset : b.pointerOffset.toNat = numberAt bytes 16 4
  slotCount : b.slotCount.toNat = numberAt bytes 20 4
  reserved2 : b.reserved2.toNat = numberAt bytes 24 4
  reserved3 : b.reserved3.toNat = numberAt bytes 28 4
  pointers : ∀ (k : ℕ) (hk : k < maxPointers), b.pointers[k].toNat = numberAt bytes (32 + 8 * k) 8

variable {bytes : List UInt8}

namespace PartitionEntry

theorem laidOut_decodeAt {i : ℕ} (hi : i + byteSize ≤ bytes.length) :
    (decodeAt bytes.toArray i).LaidOut bytes i := by
  unfold byteSize at hi
  have offset : (word64At bytes.toArray (i + 16)).toNat =
      numberAt bytes (i + 16) 4 + 4294967296 * numberAt bytes (i + 20) 4 := by
    rw [toNat_word64At (by omega)]
    exact numberAt_add 4 4 (by omega)
  have low : numberAt bytes (i + 16) 4 < 2 ^ 32 := by
    rw [← toNat_word32At (by omega)]
    exact UInt32.toNat_lt _
  refine ⟨?_, ?_, ?_, toNat_word32At (by omega), toNat_word32At (by omega)⟩
  · refine List.ext_getElem ?_ fun k hk hk' => ?_
    · rw [Vector.length_toList, List.length_take, List.length_drop]
      unfold nameFieldSize
      omega
    · have hb : i + k < bytes.length := by
        rw [List.length_take, List.length_drop] at hk'
        omega
      simp [decodeAt, List.getElem_take, List.getElem_drop, Array.getD_eq_getD_getElem?, hb]
  · rw [decodeAt, offset]
    omega
  · rw [decodeAt, offset]
    omega

theorem LaidOut.standsAt {e : PartitionEntry} {i : ℕ} (h : e.LaidOut bytes i)
    (hi : i + byteSize ≤ bytes.length) : StandsAt e.encode i bytes := by
  unfold byteSize at hi
  have offset : e.offset.toNat = numberAt bytes (i + 16) 8 := by
    rw [numberAt_add 4 4 (by omega), ← h.offset_low, ← h.offset_high]
    omega
  have name : StandsAt e.name.toList i bytes := by
    rw [StandsAt, h.name]
    exact List.take_prefix ..
  have size : e.name.toList.length = 16 := Vector.length_toList
  refine ((name.append (standsAt_word64 (by omega) offset) ?_).append
    (standsAt_word32 (by omega) h.length) ?_).append (standsAt_word32 (by omega) h.flags) ?_
  · rw [size]
  · rw [List.length_append, size, length_word64]
  · rw [List.length_append, List.length_append, size, length_word64, length_word32]

end PartitionEntry

namespace PartitionTable

theorem exactCodec : ExactCodec encode decode LaidOut := by
  refine .of_laidOut length_encode decode_encode (fun bytes hb => if_pos hb) (fun bytes hb => ?_)
    fun t bytes hb h => ?_
  · refine ⟨_, if_neg (Nat.not_lt.mpr hb), ?_⟩
    unfold tableSize at hb
    refine ⟨toNat_word32At (by omega), toNat_word32At (by omega), toNat_word32At (by omega),
      fun k hk => ?_, fun k hk => ?_⟩
    · rw [Vector.getElem_ofFn]
      exact toNat_word32At (by omega)
    · rw [Vector.getElem_ofFn]
      unfold maxPartitions at hk
      refine PartitionEntry.laidOut_decodeAt ?_
      unfold PartitionEntry.byteSize
      dsimp only
      omega
  · unfold tableSize at hb
    have reserved : StandsAt (t.reserved.toList.flatMap word32) 12 bytes := by
      refine standsAt_flatMap_of word32 length_word32 fun k hk => ?_
      rw [Vector.length_toList] at hk
      rw [Vector.getElem_toList]
      exact standsAt_word32 (by omega) (h.reserved k hk)
    have entries : StandsAt (t.entries.toList.flatMap PartitionEntry.encode) 32 bytes := by
      refine standsAt_flatMap_of _ PartitionEntry.length_encode fun k hk => ?_
      rw [Vector.length_toList] at hk
      rw [Vector.getElem_toList]
      unfold maxPartitions at hk
      exact (h.entries k hk).standsAt (by unfold PartitionEntry.byteSize; omega)
    have header : StandsAt (word32 t.magic ++ word32 t.version ++ word32 t.count) 0 bytes :=
      ((standsAt_word32 (by omega) h.magic).append (standsAt_word32 (by omega) h.version) rfl).append
        (standsAt_word32 (by omega) h.count) rfl
    refine (header.append reserved rfl).append entries ?_
    simp [List.length_flatMap, length_word32]

end PartitionTable

namespace PointerBlock

theorem exactCodec : ExactCodec encode decode LaidOut := by
  refine .of_laidOut length_encode decode_encode (fun bytes hb => if_pos hb) (fun bytes hb => ?_)
    fun b bytes hb h => ?_
  · refine ⟨_, if_neg (Nat.not_lt.mpr hb), ?_⟩
    unfold tableSize at hb
    refine ⟨toNat_word32At (by omega), toNat_word32At (by omega), toNat_word32At (by omega),
      toNat_word32At (by omega), toNat_word32At (by omega), toNat_word32At (by omega),
      toNat_word32At (by omega), toNat_word32At (by omega), fun k hk => ?_⟩
    rw [Vector.getElem_ofFn]
    unfold maxPointers at hk
    exact toNat_word64At (by dsimp only; omega)
  · unfold tableSize at hb
    have header : StandsAt ([b.magic, b.headerSize, b.totalSize, b.reserved1, b.pointerOffset,
        b.slotCount, b.reserved2, b.reserved3].flatMap word32) 0 bytes := by
      refine standsAt_flatMap_of word32 length_word32 fun k hk => ?_
      simp only [List.length_cons, List.length_nil] at hk
      refine standsAt_word32 (by omega) ?_
      match k, hk with
      | 0, _ => exact h.magic
      | 1, _ => exact h.headerSize
      | 2, _ => exact h.totalSize
      | 3, _ => exact h.reserved1
      | 4, _ => exact h.pointerOffset
      | 5, _ => exact h.slotCount
      | 6, _ => exact h.reserved2
      | 7, _ => exact h.reserved3
    have pointers : StandsAt (b.pointers.toList.flatMap word64) 32 bytes := by
      refine standsAt_flatMap_of word64 length_word64 fun k hk => ?_
      rw [Vector.length_toList] at hk
      rw [Vector.getElem_toList]
      unfold maxPointers at hk
      exact standsAt_word64 (by omega) (h.pointers k hk)
    exact header.append pointers rfl

end PointerBlock

/-- **Both kinds of table are exact in flash**: written and read back they are the same table, and read
and written back they are the same bytes. -/
theorem tables_exactCodec :
    ExactCodec PartitionTable.encode PartitionTable.decode PartitionTable.LaidOut ∧
      ExactCodec PointerBlock.encode PointerBlock.decode PointerBlock.LaidOut :=
  ⟨PartitionTable.exactCodec, PointerBlock.exactCodec⟩

end RemoteUpdate
