import Mathlib.Data.Nat.Bitwise
import Mathlib.Tactic.Positivity
import RemoteUpdate.Table.Partitions
import RemoteUpdate.Table.Pointers

/-!
# Tables in bytes

A table that is written to flash is read back as it was: `PartitionTable.decode_encode` and
`PointerBlock.decode_encode`. Both rest on one notion, a list of bytes that *stands at* a position of a
longer one, which is followed through appended lists and through fields of equal width.
-/

namespace RemoteUpdate

namespace Table

/-! ### Bytes at a position -/

/-- The bytes stand at position `i` of the list. -/
def StandsAt (bytes : List UInt8) (i : ℕ) (l : List UInt8) : Prop := bytes <+: l.drop i

section StandsAt

variable {bytes l l' : List UInt8} {i : ℕ}

theorem StandsAt.getD (h : StandsAt bytes i l) {k : ℕ} (hk : k < bytes.length) :
    l.toArray.getD (i + k) 0 = bytes[k] := by
  obtain ⟨rest, hr⟩ := h
  have e : l[i + k]? = some bytes[k] := by
    rw [← List.getElem?_drop, ← hr, List.getElem?_append_left hk, List.getElem?_eq_getElem hk]
  simp [Array.getD_eq_getD_getElem?, e]

theorem standsAt_self : StandsAt l 0 l := List.prefix_rfl

theorem StandsAt.left (h : StandsAt (bytes ++ l') i l) : StandsAt bytes i l :=
  (List.prefix_append _ _).trans h

theorem StandsAt.right (h : StandsAt (bytes ++ l') i l) : StandsAt l' (i + bytes.length) l := by
  obtain ⟨rest, hr⟩ := h
  exact ⟨rest, by rw [← List.drop_drop, ← hr, List.append_assoc, List.drop_left]⟩

/-- In a run of fields of equal width, field `k` stands at `k` times the width. -/
theorem standsAt_flatMap {α : Type} (f : α → List UInt8) {w : ℕ} (hw : ∀ x, (f x).length = w)
    {xs : List α} {k : ℕ} (hk : k < xs.length) {i : ℕ} (h : StandsAt (xs.flatMap f) i l) :
    StandsAt (f xs[k]) (i + w * k) l := by
  induction xs generalizing k i with
  | nil => simp at hk
  | cons x xs ih =>
    rw [List.flatMap_cons] at h
    cases k with
    | zero => simpa using h.left
    | succ k =>
      have := ih (by simpa using hk) h.right
      rw [hw] at this
      rw [List.getElem_cons_succ, Nat.mul_succ, Nat.add_comm (w * k), ← Nat.add_assoc]
      exact this

end StandsAt

/-! ### Words -/

theorem length_word32 (w : UInt32) : (word32 w).length = 4 := rfl
theorem length_word64 (w : UInt64) : (word64 w).length = 8 := rfl

theorem lower_or_upper (n a b : ℕ) :
    n % 2 ^ a ||| ((n >>> a) % 2 ^ b) <<< a = n % 2 ^ (a + b) := by
  refine Nat.eq_of_testBit_eq fun i => ?_
  simp only [Nat.testBit_lor, Nat.testBit_mod_two_pow, Nat.testBit_shiftLeft, Nat.testBit_shiftRight]
  by_cases hi : i < a
  · simp [hi, show i < a + b by omega]
  · have h : a + (i - a) = i := by omega
    simp [hi, h, show a ≤ i by omega, show i - a < b ↔ i < a + b by omega]

theorem ofBytes32 (w : UInt32) :
    w.toUInt8.toUInt32 ||| ((w >>> 8).toUInt8.toUInt32 <<< 8) |||
      ((w >>> 16).toUInt8.toUInt32 <<< 16) ||| ((w >>> 24).toUInt8.toUInt32 <<< 24) = w := by
  have small (k : ℕ) (hk : k ≤ 24) : (w.toNat >>> k % 2 ^ 8) <<< k % 2 ^ 32 =
      (w.toNat >>> k % 2 ^ 8) <<< k := by
    refine Nat.mod_eq_of_lt ?_
    calc (w.toNat >>> k % 2 ^ 8) <<< k < 2 ^ 8 * 2 ^ k := by
          rw [Nat.shiftLeft_eq]
          exact Nat.mul_lt_mul_of_pos_right (Nat.mod_lt _ (by decide)) (by positivity)
      _ = 2 ^ (8 + k) := (Nat.pow_add ..).symm
      _ ≤ 2 ^ 32 := Nat.pow_le_pow_right (by decide) (by omega)
  apply UInt32.toNat_inj.mp
  simp only [UInt32.toNat_or, UInt32.toNat_shiftLeft, UInt8.toNat_toUInt32, UInt32.toNat_toUInt8,
    UInt32.toNat_shiftRight]
  rw [show (8 : UInt32).toNat % 32 = 8 from rfl, show (16 : UInt32).toNat % 32 = 16 from rfl,
    show (24 : UInt32).toNat % 32 = 24 from rfl, small 8 (by omega), small 16 (by omega),
    small 24 (by omega), lower_or_upper, lower_or_upper, lower_or_upper]
  exact Nat.mod_eq_of_lt w.toNat_lt

/-- Or is addition where the lower number ends below the upper one. -/
theorem or_two_pow_mul {k x : ℕ} (y : ℕ) (hx : x < 2 ^ k) : x ||| 2 ^ k * y = x + 2 ^ k * y := by
  rw [Nat.or_comm, ← Nat.two_pow_add_eq_or_of_lt hx, Nat.add_comm]

/-- Two numbers of so many bits are put together to one of twice as many. -/
theorem or_shiftLeft_mod {x y k : ℕ} (hx : x < 2 ^ k) (hy : y < 2 ^ k) :
    x ||| y <<< k % 2 ^ (k + k) = x + 2 ^ k * y := by
  have hlt : 2 ^ k * y < 2 ^ (k + k) := by
    rw [Nat.pow_add]
    exact Nat.mul_lt_mul_of_pos_left hy (by positivity)
  rw [Nat.shiftLeft_eq, Nat.mul_comm, Nat.mod_eq_of_lt hlt, or_two_pow_mul y hx]

theorem toNat_halves (low high : UInt32) :
    (low.toUInt64 ||| (high.toUInt64 <<< 32)).toNat = low.toNat + 2 ^ 32 * high.toNat := by
  rw [UInt64.toNat_or, UInt64.toNat_shiftLeft, UInt32.toNat_toUInt64, UInt32.toNat_toUInt64]
  exact or_shiftLeft_mod low.toNat_lt high.toNat_lt

theorem ofWords64 (w : UInt64) :
    w.toUInt32.toUInt64 ||| ((w >>> 32).toUInt32.toUInt64 <<< 32) = w := by
  have hw := w.toNat_lt
  apply UInt64.toNat_inj.mp
  rw [toNat_halves, UInt64.toNat_toUInt32, UInt64.toNat_toUInt32, UInt64.toNat_shiftRight]
  show w.toNat % 2 ^ 32 + 2 ^ 32 * ((w.toNat >>> 32) % 2 ^ 32) = w.toNat
  rw [Nat.shiftRight_eq_div_pow]
  omega

theorem word64_eq (w : UInt64) : word64 w = word32 w.toUInt32 ++ word32 (w >>> 32).toUInt32 := by
  unfold word64 word32
  simp only [List.cons_append, List.nil_append, List.cons.injEq, and_true]
  refine ⟨?_, ?_, ?_, ?_, ?_, ?_, ?_, ?_⟩ <;>
  · apply UInt8.toNat_inj.mp
    simp [Nat.shiftRight_eq_div_pow]
    try omega

variable {l : List UInt8} {i : ℕ}

theorem word32At_of_standsAt {w : UInt32} (h : StandsAt (word32 w) i l) :
    word32At l.toArray i = w := by
  have h0 := h.getD (k := 0) (by simp [word32])
  have h1 := h.getD (k := 1) (by simp [word32])
  have h2 := h.getD (k := 2) (by simp [word32])
  have h3 := h.getD (k := 3) (by simp [word32])
  rw [Nat.add_zero] at h0
  unfold word32At
  rw [h0, h1, h2, h3]
  exact ofBytes32 w

theorem word64At_of_standsAt {w : UInt64} (h : StandsAt (word64 w) i l) :
    word64At l.toArray i = w := by
  rw [word64_eq] at h
  unfold word64At
  rw [word32At_of_standsAt h.left, word32At_of_standsAt (i := i + 4) h.right]
  exact ofWords64 w

end Table

open Table

/-! ### Entries -/

namespace PartitionEntry

theorem length_encode (e : PartitionEntry) : e.encode.length = byteSize := by
  unfold encode
  rw [List.length_append, List.length_append, List.length_append, Vector.length_toList]
  rfl

theorem decodeAt_of_standsAt {e : PartitionEntry} {i : ℕ} {l : List UInt8}
    (h : StandsAt e.encode i l) : decodeAt l.toArray i = e := by
  unfold encode at h
  have hn := h.left.left.left
  have ho := h.left.left.right
  have hl := h.left.right
  have hf := h.right
  simp only [List.length_append, Vector.length_toList] at ho hl hf
  have name : (Vector.ofFn fun k : Fin nameFieldSize => l.toArray.getD (i + k) 0) = e.name := by
    apply Vector.ext
    intro k hk
    rw [Vector.getElem_ofFn, hn.getD (k := k) (by rwa [Vector.length_toList]), Vector.getElem_toList]
  cases e
  unfold decodeAt
  simp only [mk.injEq]
  exact ⟨name, word64At_of_standsAt ho, word32At_of_standsAt hl, word32At_of_standsAt hf⟩

end PartitionEntry

/-! ### Tables -/

namespace PartitionTable

theorem length_encode (t : PartitionTable) : t.encode.length = tableSize := by
  unfold encode
  simp only [List.length_append, List.length_flatMap, length_word32, PartitionEntry.length_encode]
  simp
  rfl

theorem decode_encode (t : PartitionTable) : decode t.encode = .ok t := by
  have h : StandsAt (word32 t.magic ++ word32 t.version ++ word32 t.count ++
      t.reserved.toList.flatMap word32 ++ t.entries.toList.flatMap PartitionEntry.encode) 0
      t.encode := standsAt_self
  have hm := h.left.left.left.left
  have hv := h.left.left.left.right
  have hc := h.left.left.right
  have hr := h.left.right
  have he := h.right
  have lr : (t.reserved.toList.flatMap word32).length = 20 := by
    simp [List.length_flatMap, length_word32]
  simp only [List.length_append, length_word32, lr] at hv hc hr he
  have reserved : (Vector.ofFn fun k : Fin 5 => word32At t.encode.toArray (12 + 4 * k)) =
      t.reserved := by
    apply Vector.ext
    intro k hk
    rw [Vector.getElem_ofFn, ← Vector.getElem_toList (by rwa [Vector.length_toList])]
    exact word32At_of_standsAt (standsAt_flatMap word32 length_word32 _ hr)
  have entries : (Vector.ofFn fun k : Fin maxPartitions =>
      PartitionEntry.decodeAt t.encode.toArray (32 + PartitionEntry.byteSize * k)) = t.entries := by
    apply Vector.ext
    intro k hk
    rw [Vector.getElem_ofFn, ← Vector.getElem_toList (by rwa [Vector.length_toList])]
    exact PartitionEntry.decodeAt_of_standsAt
      (standsAt_flatMap _ PartitionEntry.length_encode _ he)
  unfold decode
  dsimp only
  rw [if_neg (by rw [length_encode]; omega), reserved, entries, word32At_of_standsAt hm,
    word32At_of_standsAt hv, word32At_of_standsAt hc]

end PartitionTable

namespace PointerBlock

theorem length_encode (b : PointerBlock) : b.encode.length = tableSize := by
  unfold encode
  simp only [List.length_append, List.length_flatMap, length_word32, length_word64]
  simp
  rfl

theorem decode_encode (b : PointerBlock) : decode b.encode = .ok b := by
  have h : StandsAt ([b.magic, b.headerSize, b.totalSize, b.reserved1, b.pointerOffset,
      b.slotCount, b.reserved2, b.reserved3].flatMap word32 ++ b.pointers.toList.flatMap word64) 0
      b.encode := standsAt_self
  have hw := h.left
  have hp := h.right
  have lw : ([b.magic, b.headerSize, b.totalSize, b.reserved1, b.pointerOffset, b.slotCount,
      b.reserved2, b.reserved3].flatMap word32).length = 32 := rfl
  have word (k : ℕ) (hk : k < 8) : word32At b.encode.toArray (0 + 4 * k) = [b.magic, b.headerSize,
      b.totalSize, b.reserved1, b.pointerOffset, b.slotCount, b.reserved2, b.reserved3][k] :=
    word32At_of_standsAt (standsAt_flatMap word32 length_word32 hk hw)
  have pointers : (Vector.ofFn fun k : Fin maxPointers =>
      word64At b.encode.toArray (32 + 8 * k)) = b.pointers := by
    apply Vector.ext
    intro k hk
    rw [lw] at hp
    rw [Vector.getElem_ofFn, ← Vector.getElem_toList (by rwa [Vector.length_toList])]
    exact word64At_of_standsAt (standsAt_flatMap word64 length_word64 _ hp)
  unfold decode
  dsimp only
  rw [if_neg (by rw [length_encode]; omega), pointers]
  exact congrArg Except.ok (by
    rw [word 0 (by omega), word 1 (by omega), word 2 (by omega), word 3 (by omega),
      word 4 (by omega), word 5 (by omega), word 6 (by omega), word 7 (by omega)]
    rfl)

end PointerBlock

end RemoteUpdate
