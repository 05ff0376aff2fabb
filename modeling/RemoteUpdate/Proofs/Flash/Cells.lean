import Mathlib.Data.List.Basic
import RemoteUpdate.Flash.Cells

/-!
# Ranges of cells

What a range holds after another range, or the same one, has been written or erased.
-/

namespace RemoteUpdate.Cells

/-- Two ranges, each given by its first address and its length, share no address. -/
def Apart (a n b k : ℕ) : Prop := a + n ≤ b ∨ b + k ≤ a

instance (a n b k : ℕ) : Decidable (Apart a n b k) := inferInstanceAs (Decidable (_ ∨ _))

theorem Apart.symm {a n b k : ℕ} (h : Apart a n b k) : Apart b k a n :=
  Or.symm h

theorem Apart.mono {a n b k k' : ℕ} (h : Apart a n b k) (hk : k' ≤ k) : Apart a n b k' := by
  unfold Apart at h ⊢
  omega

section Lists

variable (cells bytes : ByteArray) (a n : ℕ)

theorem slice_eq : slice cells a n = (cells.data.toList.drop a).take n := by
  unfold slice
  rw [ByteArray.data_extract, Array.toList_extract, List.extract_eq_take_drop,
    Nat.add_sub_cancel_left]

theorem length_slice : (slice cells a n).length = min n (cells.size - a) := by
  rw [slice_eq, List.length_take, List.length_drop, Array.length_toList]
  rfl

theorem take_slice {k : ℕ} (h : k ≤ n) : (slice cells a n).take k = slice cells a k := by
  rw [slice_eq, slice_eq, List.take_take, Nat.min_eq_left h]

theorem drop_slice (k : ℕ) : (slice cells a n).drop k = slice cells (a + k) (n - k) := by
  rw [slice_eq, slice_eq, List.drop_take, List.drop_drop]

theorem toList_patch : (patch cells a bytes).data.toList =
    cells.data.toList.take a ++ (bytes.data.toList ++ cells.data.toList.drop (a + bytes.size)) := by
  have hc : cells.data.toList.length = cells.size := Array.length_toList
  unfold patch
  rw [ByteArray.data_append, ByteArray.data_append, Array.toList_append, Array.toList_append,
    ByteArray.data_extract, ByteArray.data_extract, Array.toList_extract, Array.toList_extract,
    List.extract_eq_take_drop, List.extract_eq_take_drop, List.drop_zero, Nat.sub_zero,
    List.append_assoc, List.take_of_length_le (l := cells.data.toList.drop _) (by simp)]

end Lists

section Patch

variable {cells bytes : ByteArray} {a b n : ℕ}

theorem size_patch (h : a + bytes.size ≤ cells.size) : (patch cells a bytes).size = cells.size := by
  have hp := congrArg List.length (toList_patch cells bytes a)
  have hc : cells.data.size = cells.size := rfl
  have hb : bytes.data.size = bytes.size := rfl
  simp only [Array.length_toList, List.length_append, List.length_take, List.length_drop] at hp
  have : (patch cells a bytes).data.size = (patch cells a bytes).size := rfl
  omega

theorem slice_patch_self (h : a + bytes.size ≤ cells.size) :
    slice (patch cells a bytes) a bytes.size = bytes.data.toList := by
  have ha : (cells.data.toList.take a).length = a := by
    have : cells.data.size = cells.size := rfl
    rw [List.length_take, Array.length_toList]
    omega
  rw [slice_eq, toList_patch, List.drop_append_of_le_length (by omega), List.drop_of_length_le (by omega),
    List.nil_append]
  exact List.take_left' Array.length_toList

theorem slice_patch_apart (h : a + bytes.size ≤ cells.size) (hd : Apart a bytes.size b n) :
    slice (patch cells a bytes) b n = slice cells b n := by
  have hc : cells.data.toList.length = cells.size := Array.length_toList
  have hb : bytes.data.toList.length = bytes.size := Array.length_toList
  rw [slice_eq, slice_eq, toList_patch]
  refine List.ext_getElem? fun i => ?_
  simp only [List.getElem?_take, List.getElem?_drop]
  split
  next hi =>
    rcases hd with hd | hd
    · rw [List.getElem?_append_right (by simp; omega), List.getElem?_append_right (by simp; omega),
        List.getElem?_drop]
      congr 1
      simp only [List.length_take]
      omega
    · rw [List.getElem?_append_left (by simp; omega), List.getElem?_take_of_lt (by omega)]
  next => rfl

end Patch

/-! ### Erasing -/

theorem toList_filled (b : UInt8) (n : ℕ) : (filled b n).data.toList = List.replicate n b := by
  induction n using Nat.strongRecOn with
  | ind n ih =>
    unfold filled
    split
    next h => subst h; rfl
    next h =>
      have hh := ih (n / 2) (by omega)
      dsimp only
      split
      · rw [ByteArray.data_append, Array.toList_append, hh, List.replicate_append_replicate]
        congr 1
        omega
      · rw [ByteArray.data_push, Array.toList_push, ByteArray.data_append, Array.toList_append, hh,
          List.replicate_append_replicate, ← List.replicate_succ']
        congr 1
        omega

theorem size_filled (b : UInt8) (n : ℕ) : (filled b n).size = n := by
  have h := congrArg List.length (toList_filled b n)
  rwa [Array.length_toList, List.length_replicate] at h

theorem filled_append (b : UInt8) (m n : ℕ) : filled b m ++ filled b n = filled b (m + n) := by
  refine ByteArray.ext (Array.toList_inj.mp ?_)
  rw [ByteArray.data_append, Array.toList_append, toList_filled, toList_filled, toList_filled,
    List.replicate_append_replicate]

/-- What is put behind the last cell is appended. -/
theorem patch_end (cells bytes : ByteArray) : patch cells cells.size bytes = cells ++ bytes := by
  refine ByteArray.ext (Array.toList_inj.mp ?_)
  have hsize : cells.data.toList.length = cells.size := Array.length_toList
  rw [toList_patch, ByteArray.data_append, Array.toList_append, List.take_of_length_le (Nat.le_of_eq hsize),
    List.drop_of_length_le (by omega), List.append_nil]

end RemoteUpdate.Cells
