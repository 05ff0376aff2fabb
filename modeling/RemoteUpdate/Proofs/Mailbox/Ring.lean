import Mathlib.Data.List.Basic
import RemoteUpdate.Mailbox.Cursor

/-!
# Words in a ring

How far the cursors of a ring are apart after one of them has moved, and the words between them as a
list: the producer adds at its end, the consumer takes from its front.
-/

namespace RemoteUpdate.Ring

variable {r : Ring} {p c : Nat}

/-! ### Cursors -/

theorem next_eq (h : c < r.capacity) : r.next c = if c + 1 = r.capacity then 0 else c + 1 := by
  unfold next wrap
  split
  next heq => rw [heq, Nat.mod_self]
  next => rw [Nat.mod_eq_of_lt (by omega)]

theorem pending_eq (hp : p < r.capacity) (hc : c < r.capacity) :
    r.pending p c = if c ≤ p then p - c else p + r.capacity - c := by
  unfold pending
  rw [wrap_of_lt hc]
  unfold wrap
  split
  next h =>
    rw [show p + r.capacity - c = p - c + r.capacity by omega, Nat.add_mod_right]
    exact Nat.mod_eq_of_lt (by omega)
  next => exact Nat.mod_eq_of_lt (by omega)

theorem pending_eq_zero (hp : p < r.capacity) (hc : c < r.capacity) :
    r.pending p c = 0 ↔ p = c := by
  rw [pending_eq hp hc]
  split <;> omega

theorem pending_next_producer (hp : p < r.capacity) (hc : c < r.capacity) (h : 0 < r.free p c) :
    r.pending (r.next p) c = r.pending p c + 1 := by
  have hn : r.next p < r.capacity := next_lt (by omega) p
  unfold free usable at h
  rw [pending_eq hp hc] at h
  rw [pending_eq hn hc, pending_eq hp hc, next_eq hp]
  split_ifs at h ⊢ <;> omega

theorem pending_next_consumer (hp : p < r.capacity) (hc : c < r.capacity) (h : p ≠ c) :
    r.pending p (r.next c) + 1 = r.pending p c := by
  have hn : r.next c < r.capacity := next_lt (by omega) c
  rw [pending_eq hp hn, pending_eq hp hc, next_eq hc]
  split_ifs <;> omega

theorem isFull_iff (hp : p < r.capacity) (hc : c < r.capacity) :
    r.isFull p c = true ↔ r.free p c = 0 := by
  unfold isFull free usable
  rw [beq_iff_eq, wrap_of_lt hc, next_eq hp, pending_eq hp hc]
  split_ifs <;> omega

theorem wrap_add_pending (hp : p < r.capacity) (hc : c < r.capacity) :
    r.wrap (c + r.pending p c) = p := by
  rw [pending_eq hp hc]
  unfold wrap
  split
  next => rw [Nat.mod_eq_of_lt (by omega)]; omega
  next =>
    rw [show c + (p + r.capacity - c) = p + r.capacity by omega, Nat.add_mod_right]
    exact Nat.mod_eq_of_lt hp

/-! ### Words -/

variable {cells : Array UInt32} {count : Nat}

def words (r : Ring) (cells : Array UInt32) (cursor count : Nat) : List UInt32 :=
  (List.range count).map fun i => cells.getD (r.wrap (cursor + i)) 0

@[simp] theorem length_words : (r.words cells c count).length = count := by
  simp [words]

theorem words_succ (hc : c < r.capacity) :
    r.words cells c (count + 1) = cells.getD c 0 :: r.words cells (r.next c) count := by
  have shift : ∀ i, r.wrap (c + (i + 1)) = r.wrap (r.next c + i) := by
    intro i
    unfold next wrap
    rw [Nat.mod_add_mod]
    congr 1
    omega
  simp [words, List.range_succ_eq_map, wrap_of_lt hc, shift, Function.comp_def]

theorem wrap_add_eq (hc : c < r.capacity) {i : Nat} (hi : i < r.capacity) :
    r.wrap (c + i) = if c + i < r.capacity then c + i else c + i - r.capacity := by
  unfold wrap
  split
  next h => exact Nat.mod_eq_of_lt h
  next h => rw [Nat.mod_eq_sub_mod (by omega)]; exact Nat.mod_eq_of_lt (by omega)

theorem wrap_add_ne (hc : c < r.capacity) {i j : Nat} (hij : i < j) (hj : j < r.capacity) :
    r.wrap (c + i) ≠ r.wrap (c + j) := by
  rw [wrap_add_eq hc (Nat.lt_trans hij hj), wrap_add_eq hc hj]
  split_ifs <;> omega

theorem words_set (hc : c < r.capacity) (hcount : count < r.capacity)
    (hcells : cells.size = r.capacity) (word : UInt32) :
    r.words (cells.setIfInBounds (r.wrap (c + count)) word) c (count + 1) =
      r.words cells c count ++ [word] := by
  have hlt : r.wrap (c + count) < cells.size := hcells ▸ wrap_lt (by omega) _
  have last : (cells.setIfInBounds (r.wrap (c + count)) word).getD (r.wrap (c + count)) 0 = word := by
    simp [Array.getD_eq_getD_getElem?, hlt]
  have rest : ∀ i < count,
      (cells.setIfInBounds (r.wrap (c + count)) word).getD (r.wrap (c + i)) 0 =
        cells.getD (r.wrap (c + i)) 0 := by
    intro i hi
    have hne := wrap_add_ne hc hi hcount
    simp [Array.getD_eq_getD_getElem?, Array.getElem?_setIfInBounds_ne hne.symm]
  simp only [words, List.range_succ, List.map_append, List.map_cons, List.map_nil, last]
  congr 1
  apply List.map_congr_left
  intro i hi
  exact rest i (List.mem_range.mp hi)

/-- The words published and not yet taken. -/
def contents (r : Ring) (cells : Array UInt32) (producer consumer : Nat) : List UInt32 :=
  r.words cells consumer (r.pending producer consumer)

@[simp] theorem length_contents : (r.contents cells p c).length = r.pending p c := length_words

theorem contents_eq_nil (hp : p < r.capacity) (hc : c < r.capacity) :
    r.contents cells p c = [] ↔ p = c := by
  rw [← pending_eq_zero hp hc, ← @length_contents r p c cells, List.length_eq_zero_iff]

theorem contents_push (hp : p < r.capacity) (hc : c < r.capacity)
    (hcells : cells.size = r.capacity) (h : 0 < r.free p c) (word : UInt32) :
    r.contents (cells.setIfInBounds p word) (r.next p) c = r.contents cells p c ++ [word] := by
  have hlt : r.pending p c < r.capacity := by
    unfold free usable at h
    omega
  have hset := words_set hc hlt hcells word
  rw [wrap_add_pending hp hc] at hset
  unfold contents
  rw [pending_next_producer hp hc h]
  exact hset

theorem contents_pop (hp : p < r.capacity) (hc : c < r.capacity) (h : p ≠ c) :
    r.contents cells p c = cells.getD c 0 :: r.contents cells p (r.next c) := by
  unfold contents
  rw [← pending_next_consumer hp hc h]
  exact words_succ hc

/-- The words between the cursors, cut in two. -/
theorem contents_split (hp : p < r.capacity) (hc : c < r.capacity) (h : count ≤ r.pending p c) :
    r.contents cells p c = r.words cells c count ++ r.contents cells p (r.wrap (c + count)) := by
  induction count generalizing c with
  | zero =>
    rw [Nat.add_zero, wrap_of_lt hc]
    rfl
  | succ count ih =>
    have hne : p ≠ c := by
      intro heq
      rw [(pending_eq_zero hp hc).mpr heq] at h
      omega
    have hnext : r.next c < r.capacity := next_lt (by omega) c
    have hpending := pending_next_consumer hp hc hne
    have hwrap : r.wrap (r.next c + count) = r.wrap (c + (count + 1)) := by
      unfold next wrap
      rw [Nat.mod_add_mod, Nat.add_assoc, Nat.add_comm 1 count]
    rw [contents_pop hp hc hne, ih hnext (by omega), hwrap, words_succ hc]
    rfl

/-- What the producer writes into its slot is not there before the cursor is moved. -/
theorem contents_fill (hp : p < r.capacity) (hc : c < r.capacity) (word : UInt32) :
    r.contents (cells.setIfInBounds p word) p c = r.contents cells p c := by
  have hlt : r.pending p c < r.capacity := wrap_lt (by omega) _
  apply List.map_congr_left
  intro i hi
  have hne := wrap_add_ne hc (List.mem_range.mp hi) hlt
  rw [wrap_add_pending hp hc] at hne
  simp [Array.getD_eq_getD_getElem?, Array.getElem?_setIfInBounds_ne hne.symm]

end RemoteUpdate.Ring
