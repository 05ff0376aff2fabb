import RemoteUpdate.Proofs.Session.Effects

/-!
# Comparing a slot

A partition is compared with an image in pieces, which comes to the same as comparing all of it at once: the
answer tells the first position at which they differ.
-/

namespace RemoteUpdate.Session

open KeepsCells (cells)

variable {ρ φ : Type} {image : List UInt8}

/-! ### The first difference -/

/-- Two lists differ at a position of the second, and agree before it. -/
structure FirstDiffers (contents image : List UInt8) (i : ℕ) : Prop where
  inside : i < image.length
  differs : contents[i]? ≠ image[i]?
  before : ∀ j < i, contents[j]? = image[j]?

theorem FirstDiffers.unique {contents : List UInt8} {i j : ℕ} (h : FirstDiffers contents image i)
    (h' : FirstDiffers contents image j) : i = j := by
  rcases Nat.lt_trichotomy i j with hlt | heq | hgt
  · exact absurd (h'.before i hlt) h.differs
  · exact heq
  · exact absurd (h.before j hgt) h'.differs

theorem firstDifference_self (l : List UInt8) : firstDifference l l = none := by
  induction l with
  | nil => rfl
  | cons b l ih => rw [firstDifference, if_pos rfl, ih]; rfl

theorem firstDifference_eq_none {l l' : List UInt8} (hl : l.length = l'.length)
    (h : firstDifference l l' = none) : l = l' := by
  induction l generalizing l' with
  | nil => exact (List.length_eq_zero_iff.mp hl.symm).symm
  | cons a l ih =>
    cases l' with
    | nil => cases hl
    | cons a' l' =>
      rw [firstDifference] at h
      split at h
      next heq => rw [heq, ih (Nat.succ.inj hl) (Option.map_eq_none_iff.mp h)]
      next => cases h

theorem firstDifference_eq_some {l l' : List UInt8} {i : ℕ} (h : firstDifference l l' = some i) :
    FirstDiffers l l' i := by
  induction l generalizing l' i with
  | nil => cases h
  | cons a l ih =>
    cases l' with
    | nil => cases h
    | cons a' l' =>
      rw [firstDifference] at h
      split at h
      next heq =>
        obtain ⟨k, hk, rfl⟩ := Option.map_eq_some_iff.mp h
        obtain ⟨hin, hne, hbefore⟩ := ih hk
        refine ⟨Nat.succ_lt_succ hin, hne, fun j hj => ?_⟩
        cases j with
        | zero => rw [List.getElem?_cons_zero, List.getElem?_cons_zero, heq]
        | succ j => exact hbefore j (Nat.lt_of_succ_lt_succ hj)
      next hne =>
        obtain rfl := Option.some.inj h
        exact ⟨Nat.succ_pos _, fun he => hne (Option.some.inj he),
          fun j hj => absurd hj (Nat.not_lt_zero j)⟩

/-- Lists differ first where their first parts do, or else their last parts. -/
theorem firstDifference_split {l l' : List UInt8} (hl : l.length = l'.length) (k : ℕ) :
    firstDifference l l' = (firstDifference (l.take k) (l'.take k)).or
      ((firstDifference (l.drop k) (l'.drop k)).map (· + k)) := by
  induction k generalizing l l' with
  | zero => simp [firstDifference]
  | succ k ih =>
    cases l with
    | nil =>
      rw [List.length_eq_zero_iff.mp hl.symm]
      rfl
    | cons a l =>
      cases l' with
      | nil => cases hl
      | cons a' l' =>
        rw [List.take_succ_cons, List.take_succ_cons, List.drop_succ_cons, List.drop_succ_cons,
          firstDifference, firstDifference]
        split
        · rw [ih (Nat.succ.inj hl)]
          cases firstDifference (l.take k) (l'.take k) with
          | some i => rfl
          | none =>
            rw [Option.none_or, Option.map_none, Option.none_or, Option.map_map]
            rfl
        · rfl

theorem firstDifference_nil (l : List UInt8) : firstDifference l [] = none := by
  cases l <;> rfl

/-- What a comparison from an offset on ends with, by the first difference. -/
def comparison (offset : ℕ) : Option ℕ → Except UpdateError Unit
  | none => .ok ()
  | some i => .error (.verifyMismatch (offset + i))

theorem comparison_map (offset k : ℕ) (d : Option ℕ) :
    comparison offset (d.map (· + k)) = comparison (offset + k) d := by
  cases d with
  | none => rfl
  | some i => rw [Option.map_some, comparison, comparison, Nat.add_comm i k, Nat.add_assoc]

/-! ### Pieces -/

variable [FlashDevice φ] {p : FlashPartition} {offset : ℕ}

theorem read_eq {n : ℕ} (h : offset + n ≤ p.length) :
    (p.read offset n : FlashM φ _) = FlashDevice.read (p.base + offset) n := by
  unfold FlashPartition.read FlashPartition.locate
  rw [if_pos h]
  rfl

variable [KeepsCells φ] {s : SessionState ρ φ} {expected : List UInt8}

/-- Comparing in pieces comes to the same as comparing at once. -/
theorem ends_compare_pieces (hl : offset + expected.length ≤ p.length)
    (hc : p.base + offset + expected.length ≤ (cells s.flash).size) :
    Ends (compare p offset expected) s (comparison offset
      (firstDifference (Cells.slice (cells s.flash) (p.base + offset) expected.length) expected)) s := by
  induction offset, expected using compare.induct with
  | case1 offset expected hnil =>
    rw [compare, if_pos hnil, List.isEmpty_iff.mp hnil, firstDifference_nil]
    exact Ends.pure _ s
  | case2 offset expected hne ih =>
    have hw : (expected.take compareStep).length = min compareStep expected.length := List.length_take
    have hread := ends_read (p.base + offset) (expected.take compareStep).length s
    rw [if_pos (by omega), ← read_eq (by omega)] at hread
    have hwhole : (Cells.slice (cells s.flash) (p.base + offset) expected.length).length =
        expected.length := by
      rw [Cells.length_slice]
      omega
    have hpiece : (Cells.slice (cells s.flash) (p.base + offset) expected.length).take compareStep =
        Cells.slice (cells s.flash) (p.base + offset) (expected.take compareStep).length := by
      have hle : (expected.take compareStep).length ≤ expected.length := List.length_take_le' ..
      rw [← Cells.take_slice (cells s.flash) (p.base + offset) _ hle, hw, List.take_eq_take_iff, hwhole]
      omega
    rw [compare, if_neg hne]
    refine hread.bind ?_
    rw [firstDifference_split hwhole compareStep, hpiece]
    cases firstDifference (Cells.slice (cells s.flash) (p.base + offset)
        (expected.take compareStep).length) (expected.take compareStep) with
    | some i => exact (ends_log _ s).bind (Ends.throw _ s)
    | none =>
      rw [Option.none_or, comparison_map, Cells.drop_slice, ← List.length_drop, Nat.add_assoc]
      -- what is left starts where the piece just read ends, and may be nothing
      by_cases hlast : expected.length ≤ compareStep
      · rw [List.drop_eq_nil_of_le hlast, firstDifference_nil, compare]
        exact Ends.pure _ s
      · have hrest : (expected.drop compareStep).length = expected.length - compareStep :=
          List.length_drop
        exact ih (by omega) (by omega)

/-- A partition that holds what is expected passes the comparison. -/
theorem ends_compare (hl : offset + expected.length ≤ p.length)
    (hc : p.base + offset + expected.length ≤ (cells s.flash).size)
    (hs : Cells.slice (cells s.flash) (p.base + offset) expected.length = expected) :
    Ends (compare p offset expected) s (.ok ()) s := by
  have hends := ends_compare_pieces hl hc
  rwa [hs, firstDifference_self, comparison] at hends

end RemoteUpdate.Session
