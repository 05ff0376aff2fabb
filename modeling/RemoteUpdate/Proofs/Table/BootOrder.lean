import RemoteUpdate.Proofs.Table.Pointers

/-!
# The pointer block as a priority list

A block is read as the list of its pointers from the highest slot in use down, whatever cleared slots,
erased slots and repeated pointers lie between them. `RefinesList` says of each operation what it answers
and what it does to that list, and that it leaves the header and the slots not in use alone.
-/

namespace RemoteUpdate

namespace PointerBlock

variable {b b' : PointerBlock} {p q : UInt64} {slots : List UInt64}

/-! ### Reading a block downwards -/

/-- The pointers of a block from the highest slot in use down. -/
def pointersDown (b : PointerBlock) : List UInt64 :=
  (List.range b.slotCount.toNat).reverse.filterMap fun k => b.pointers[k]?.filter isPointer

/-- The pointers below a slot, read downwards, are the boot order of the slots below it. -/
theorem filterMap_range (b : PointerBlock) (n : ℕ) :
    ((List.range n).reverse.filterMap fun k => b.pointers[k]?.filter isPointer) =
      bootOrder (b.pointers.toList.take n) := by
  unfold bootOrder
  induction n with
  | zero => simp
  | succ n ih =>
    rw [List.range_succ, List.reverse_append, List.filterMap_append, ih, List.take_add_one,
      List.reverse_append, List.filter_append]
    congr 1
    rw [Vector.getElem?_toList, List.reverse_singleton, List.filterMap_cons, List.filterMap_nil]
    cases b.pointers[n]? with
    | none => rfl
    | some q =>
      by_cases hq : isPointer q
      · simp [hq, Option.filter]
      · simp [hq, Option.filter]

theorem pointersDown_eq : b.pointersDown = b.priorities := by
  have hl : b.pointers.toList.length = maxPointers := Vector.length_toList
  rw [pointersDown, filterMap_range, priorities_eq, slots, size]
  congr 1
  by_cases h : b.slotCount.toNat ≤ maxPointers
  · rw [Nat.min_eq_left h]
  · rw [Nat.min_eq_right (by omega), List.take_of_length_le (by omega),
      List.take_of_length_le (by omega)]

theorem mem_slots_iff :
    q ∈ b.slots ↔ ∃ k : Fin maxPointers, (k : ℕ) < b.slotCount.toNat ∧ b.pointers.get k = q := by
  have hl : b.pointers.toList.length = maxPointers := Vector.length_toList
  unfold slots size
  rw [List.mem_take_iff_getElem]
  constructor
  · rintro ⟨k, hk, rfl⟩
    refine ⟨⟨k, by omega⟩, by simp only; omega, ?_⟩
    rw [Vector.getElem_toList]
    rfl
  · rintro ⟨k, hk, rfl⟩
    refine ⟨k, by omega, ?_⟩
    rw [Vector.getElem_toList]
    rfl

theorem slots_eq_nil_iff : b.slots = [] ↔ b.slotCount = 0 := by
  rw [← List.length_eq_zero_iff, length_slots, size]
  have hm : maxPointers = 508 := rfl
  constructor
  · intro h
    apply UInt32.toNat_inj.mp
    rw [UInt32.toNat_zero]
    omega
  · intro h
    rw [h]
    simp

/-! ### What is left alone -/

/-- The header and the slots that are not in use are the same. -/
structure Frames (b b' : PointerBlock) : Prop where
  header : { b' with pointers := b.pointers } = b
  unused : ∀ k : Fin maxPointers, b.slotCount.toNat ≤ k → b'.pointers.get k = b.pointers.get k

theorem Frames.refl (b : PointerBlock) : Frames b b :=
  ⟨rfl, fun _ _ => rfl⟩

theorem Frames.slotCount_eq (h : Frames b b') : b'.slotCount = b.slotCount := by
  have e := congrArg PointerBlock.slotCount h.header
  exact e

theorem Frames.trans {b'' : PointerBlock} (h : Frames b b') (h' : Frames b' b'') : Frames b b'' where
  header := by
    have e := h.header
    have e' := congrArg (fun x : PointerBlock => { x with pointers := b.pointers }) h'.header
    exact e'.trans e
  unused := by
    intro k hk
    rw [h'.unused k (by rwa [h.slotCount_eq]), h.unused k hk]

theorem frames_withSlots (b : PointerBlock) (slots : List UInt64) : Frames b (b.withSlots slots) where
  header := by
    unfold withSlots
    rfl
  unused := by
    intro k hk
    have hsize : ¬ (k : ℕ) < b.size := by
      have : b.size ≤ b.slotCount.toNat := Nat.min_le_left ..
      omega
    unfold withSlots
    dsimp only
    refine (Vector.getElem_ofFn k.isLt).trans ?_
    exact if_neg hsize

theorem frames_disable (b : PointerBlock) (p : UInt64) : Frames b (b.disable p).2 := by
  unfold disable
  split
  · exact frames_withSlots b _
  · exact Frames.refl b

theorem frames_compact (b : PointerBlock) : Frames b b.compact.2 :=
  frames_withSlots b _

/-- Whether the pointers were packed or not, a pointer is stored in one of the slots in use. -/
theorem frames_raise {target n : ℕ} (h : (if n < b.size then (n, b) else b.compact) = (target, b')) :
    Frames b (b'.withSlots (b'.slots.set target p)) := by
  split at h
  · obtain ⟨-, rfl⟩ := Prod.mk.inj h
    exact frames_withSlots b _
  · obtain ⟨-, rfl⟩ := Prod.mk.inj h
    exact (frames_compact b).trans (frames_withSlots _ _)

theorem frames_enable (b : PointerBlock) (p : UInt64) : Frames b (b.enable p).2 := by
  unfold enable
  split
  · exact Frames.refl b
  · split
    · exact Frames.refl b
    · dsimp only
      split
      · exact frames_disable b p
      · exact (frames_disable b p).trans (frames_raise rfl)

/-! ### When a pointer cannot be put on top -/

/-- It is no pointer, there is no slot, or every slot holds another pointer. -/
def Unplaceable (b : PointerBlock) (p : UInt64) : Prop :=
  p = clearedPointer ∨ p = erasedPointer ∨ b.slotCount = 0 ∨
    ∀ k : Fin maxPointers, (k : ℕ) < b.slotCount.toNat → isPointer (b.pointers.get k) ∧ b.pointers.get k ≠ p

theorem isPointer_eq_false_iff : isPointer p = false ↔ p = clearedPointer ∨ p = erasedPointer := by
  unfold isPointer
  by_cases hc : p = clearedPointer
  · simp [hc]
  · simp [hc]

theorem unplaceable_iff :
    b.Unplaceable p ↔
      isPointer p = false ∨ b.slots = [] ∨ b.slots.all isPointer = true ∧ p ∉ b.slots := by
  have hfull : (∀ k : Fin maxPointers, (k : ℕ) < b.slotCount.toNat →
      isPointer (b.pointers.get k) ∧ b.pointers.get k ≠ p) ↔ b.slots.all isPointer = true ∧ p ∉ b.slots := by
    rw [List.all_eq_true]
    constructor
    · intro h
      constructor
      · intro q hq
        obtain ⟨k, hk, rfl⟩ := mem_slots_iff.mp hq
        exact (h k hk).1
      · intro hp
        obtain ⟨k, hk, hkp⟩ := mem_slots_iff.mp hp
        exact (h k hk).2 hkp
    · rintro ⟨hall, hp⟩ k hk
      have hmem : b.pointers.get k ∈ b.slots := mem_slots_iff.mpr ⟨k, hk, rfl⟩
      exact ⟨hall _ hmem, fun e => hp (e ▸ hmem)⟩
  unfold Unplaceable
  rw [hfull, isPointer_eq_false_iff, slots_eq_nil_iff, or_assoc]

/-- A pointer has no place if as many others as there are slots are to be booted. -/
theorem unplaceable_iff_priorities :
    b.Unplaceable p ↔
      isPointer p = false ∨ b.size = 0 ∨ b.priorities.length = b.size ∧ p ∉ b.priorities := by
  have hfull : b.slots.all isPointer = true ↔ b.priorities.length = b.size := by
    rw [← length_slots, priorities_eq, bootOrder, List.filter_reverse, List.length_reverse,
      List.length_filter_eq_length_iff, List.all_eq_true]
  rw [unplaceable_iff, hfull, ← List.length_eq_zero_iff, length_slots]
  by_cases hp : isPointer p
  · rw [priorities_eq, mem_bootOrder]
    simp [hp]
  · simp [hp]

/-- A block is full after a pointer has been taken out only if it was full of other pointers. -/
theorem all_isPointer_disable (hp : isPointer p) :
    (b.disable p).2.slots.all isPointer = true ↔ b.slots.all isPointer = true ∧ p ∉ b.slots := by
  cases hc : (b.disable p).1 with
  | true =>
    have hmem : p ∈ b.slots := (changed_iff.mp hc).2
    constructor
    · intro h
      rw [List.all_eq_true] at h
      have hcleared : isPointer clearedPointer := by
        apply h
        rw [slots_of_changed hc, List.mem_map]
        exact ⟨p, hmem, by simp⟩
      exact absurd hcleared (by decide)
    · rintro ⟨-, hno⟩
      exact absurd hmem hno
  | false =>
    have hno : p ∉ b.slots := by
      intro hmem
      have : (b.disable p).1 = true := changed_iff.mpr ⟨hp, hmem⟩
      rw [hc] at this
      cases this
    rw [disable_of_not_changed hc]
    simp [hno]

theorem head?_priorities (h : b.priorities.head? = some p) : isPointer p ∧ p ∈ b.slots := by
  have : p ∈ b.priorities := List.mem_of_head? h
  rw [priorities_eq, mem_bootOrder] at this
  exact this.symm

/-- A pointer that is on top already can be put there. -/
theorem not_unplaceable_of_head? (h : b.priorities.head? = some p) : ¬ b.Unplaceable p := by
  obtain ⟨hp, hmem⟩ := head?_priorities h
  rw [unplaceable_iff]
  rintro (hno | hnil | ⟨-, hno⟩)
  · rw [hp] at hno
    cases hno
  · rw [hnil] at hmem
    cases hmem
  · exact hno hmem

/-- The three answers: a refusal, a pointer that is on top already, and a pointer put on top. -/
theorem enable_answer (b : PointerBlock) (p : UInt64) :
    (b.Unplaceable p ∧ ∃ e, (b.enable p).1 = .error e) ∨
    (¬ b.Unplaceable p ∧ b.priorities.head? = some p ∧ (b.enable p).1 = .ok false) ∨
    (¬ b.Unplaceable p ∧ b.priorities.head? ≠ some p ∧ (b.enable p).1 = .ok true) := by
  by_cases hslot : (!isPointer p || b.slots.isEmpty) = true
  · left
    constructor
    · rw [unplaceable_iff]
      simp only [Bool.or_eq_true, Bool.not_eq_true', List.isEmpty_iff] at hslot
      rcases hslot with hp | hnil
      · exact .inl hp
      · exact .inr (.inl hnil)
    · refine ⟨.noSlot, ?_⟩
      unfold enable
      rw [if_pos hslot]
  · have hp : isPointer p = true := by
      simp only [Bool.or_eq_true, Bool.not_eq_true', not_or, Bool.not_eq_false] at hslot
      exact hslot.1
    have hsome : b.slots ≠ [] := by
      intro hnil
      simp [hnil] at hslot
    by_cases htop : b.priorities.head? = some p
    · right; left
      refine ⟨not_unplaceable_of_head? htop, htop, ?_⟩
      unfold enable
      rw [if_neg hslot, if_pos (by simp [htop])]
    · -- room is looked for once the pointer has been taken out, so one that is listed makes its own
      have hfull : (b.disable p).2.slots.all isPointer = true ↔ b.Unplaceable p := by
        rw [all_isPointer_disable hp, unplaceable_iff]
        simp [hp, hsome]
      have htop' : ¬ (b.priorities.head? == some p) = true := by simpa using htop
      by_cases hun : b.Unplaceable p
      · left
        refine ⟨hun, .full, ?_⟩
        unfold enable
        rw [if_neg hslot, if_neg htop']
        dsimp only
        rw [if_pos (hfull.mpr hun)]
      · right; right
        refine ⟨hun, htop, ?_⟩
        unfold enable
        rw [if_neg hslot, if_neg htop']
        dsimp only
        rw [if_neg (fun h => hun (hfull.mp h))]

theorem enable_eq_error_iff : (∃ e, (b.enable p).1 = .error e) ↔ b.Unplaceable p := by
  constructor
  · rintro ⟨e, he⟩
    rcases enable_answer b p with ⟨hun, -⟩ | ⟨-, -, h⟩ | ⟨-, -, h⟩
    · exact hun
    · cases he.symm.trans h
    · cases he.symm.trans h
  · intro hun
    rcases enable_answer b p with ⟨-, h⟩ | ⟨hno, -⟩ | ⟨hno, -⟩
    · exact h
    · exact absurd hun hno
    · exact absurd hun hno

theorem enable_first_iff : (b.enable p).1 = .ok false ↔ b.priorities.head? = some p := by
  rcases enable_answer b p with ⟨hun, e, he⟩ | ⟨-, htop, h⟩ | ⟨-, htop, h⟩
  · exact iff_of_false (by simp [he]) fun htop => not_unplaceable_of_head? htop hun
  · exact iff_of_true h htop
  · exact iff_of_false (by simp [h]) htop

theorem enable_moved_iff :
    (b.enable p).1 = .ok true ↔ ¬ b.Unplaceable p ∧ b.priorities.head? ≠ some p := by
  rcases enable_answer b p with ⟨hun, e, he⟩ | ⟨-, htop, h⟩ | ⟨hno, htop, h⟩
  · exact iff_of_false (by simp [he]) fun hok => hok.1 hun
  · exact iff_of_false (by simp [h]) fun hok => hok.2 htop
  · exact iff_of_true h ⟨hno, htop⟩

/-- Distinct pointers stay so, with the pointer that was put on top before the others. -/
theorem priorities_enable (hd : b.priorities.Nodup) (h : ¬ b.Unplaceable p) :
    (b.enable p).2.priorities = p :: b.priorities.filter (· != p) := by
  rcases enable_answer b p with ⟨hun, -⟩ | ⟨-, htop, hfirst⟩ | ⟨-, -, hmoved⟩
  · exact absurd hun h
  · have hsame : (b.enable p).2 = b := enable_not_changed (Prod.ext hfirst rfl) (by simp)
    rw [hsame]
    obtain ⟨l, hl⟩ := List.head?_eq_some_iff.mp htop
    rw [hl, List.nodup_cons] at hd
    have hrest : l.filter (· != p) = l := by
      rw [List.filter_eq_self]
      intro q hq
      have : q ≠ p := by
        rintro rfl
        exact hd.1 hq
      simpa using this
    rw [hl, List.filter_cons_of_neg (by simp), hrest]
  · exact (enable_changed (Prod.ext hmoved rfl)).1

/-! ### Packing and ranks -/

theorem slots_compact : b.compact.2.slots = packSlots b.slots :=
  slots_withSlots (by rw [length_packSlots, length_slots])

theorem reverse_bootOrder (slots : List UInt64) :
    (bootOrder slots).reverse = slots.filter isPointer := by
  unfold bootOrder
  rw [List.filter_reverse, List.reverse_reverse]

/-- After packing, the slots hold the boot order from the bottom up, and then erased flash. -/
theorem slots_compact_eq :
    b.compact.2.slots = b.priorities.reverse ++
      List.replicate (b.size - b.priorities.length) erasedPointer := by
  have hlen : (b.slots.filter isPointer).length = b.priorities.length := by
    rw [← reverse_bootOrder, List.length_reverse, priorities_eq]
  rw [slots_compact, packSlots, hlen, length_slots, priorities_eq, reverse_bootOrder]

theorem getElem?_slots {k : Fin maxPointers} (hk : (k : ℕ) < b.slotCount.toNat) :
    b.slots[(k : ℕ)]? = some (b.pointers.get k) := by
  have hlt : (k : ℕ) < b.size := by
    unfold size
    omega
  rw [slots, List.getElem?_take_of_lt hlt, Vector.getElem?_toList, Vector.getElem?_eq_getElem k.isLt]
  rfl

theorem length_priorities_le : b.priorities.length ≤ b.size := by
  have hle : (bootOrder b.slots).length ≤ b.slots.reverse.length := List.length_filter_le _ _
  rwa [List.length_reverse, length_slots] at hle

theorem length_compact : b.compact.1 = b.priorities.length := by
  have hlength : (bootOrder b.slots).reverse.length = _ := List.length_reverse
  rw [reverse_bootOrder] at hlength
  rw [priorities_eq]
  exact hlength

theorem priorities_compact : b.compact.2.priorities = b.priorities := by
  rw [priorities_eq, slots_compact, bootOrder_pack, priorities_eq]

/-- The lowest slots are packed, the first pointer highest. -/
theorem get_compact_packed {k : Fin maxPointers} (hk : (k : ℕ) < b.priorities.length) :
    b.priorities.reverse[(k : ℕ)]? = some (b.compact.2.pointers.get k) := by
  have hused : (k : ℕ) < b.compact.2.slotCount.toNat := by
    have h : b.priorities.length ≤ b.slotCount.toNat :=
      Nat.le_trans length_priorities_le (Nat.min_le_left ..)
    rw [(frames_compact b).slotCount_eq]
    omega
  rw [← getElem?_slots hused, slots_compact_eq, List.getElem?_append_left (by simpa using hk)]

theorem get_compact_rest {k : Fin maxPointers} (hk : b.priorities.length ≤ k)
    (hused : (k : ℕ) < b.slotCount.toNat) : b.compact.2.pointers.get k = erasedPointer := by
  have hsize : (k : ℕ) < b.size := by
    unfold size
    omega
  have h : b.compact.2.slots[(k : ℕ)]? = some (b.compact.2.pointers.get k) :=
    getElem?_slots (by rwa [(frames_compact b).slotCount_eq])
  rw [slots_compact_eq, List.getElem?_append_right (by simpa using hk), List.length_reverse,
    List.getElem?_replicate_of_lt (by omega)] at h
  exact (Option.some.inj h).symm

theorem rank_eq : b.rank p = if p ∈ b.priorities then b.priorities.idxOf p + 1 else 0 := by
  unfold rank
  by_cases hp : p ∈ b.priorities
  · have : b.priorities.findIdx? (· == p) = some (b.priorities.idxOf p) := by
      rw [List.findIdx?_eq_some_iff_findIdx_eq]
      exact ⟨List.idxOf_lt_length_iff.mpr hp, rfl⟩
    rw [this, if_pos hp]
  · have : b.priorities.findIdx? (· == p) = none := by
      rw [List.findIdx?_eq_none_iff]
      intro q hq
      simp only [beq_eq_false_iff_ne, ne_eq]
      rintro rfl
      exact hp hq
    rw [this, if_neg hp]

/-! ### Refinement -/

/-- What the operations on a pointer do to the list of pointers that a block is read as. -/
structure RefinesList (b : PointerBlock) (p : UInt64) : Prop where
  /-- Putting on top is refused, as a mistake of the caller, exactly if there is no place. -/
  refused : (∃ e, (b.enable p).1 = .error e ∧ e.toUpdateError = .invalidArgument) ↔ b.Unplaceable p
  /-- It changes nothing exactly if the pointer is first already. -/
  enable_first : (b.enable p).1 = .ok false ↔ ¬ b.Unplaceable p ∧ b.pointersDown.head? = some p
  /-- Otherwise the pointer is first afterwards, and nowhere else. -/
  enable_moved : ¬ b.Unplaceable p → b.pointersDown.head? ≠ some p →
    (b.enable p).1 = .ok true ∧
      (b.enable p).2.pointersDown = p :: b.pointersDown.filter (· ≠ p)
  disabled : (b.disable p).1 = true ↔ p ∈ b.pointersDown
  disable_list : (b.disable p).2.pointersDown = b.pointersDown.filter (· ≠ p)
  compact_list : b.compact.2.pointersDown = b.pointersDown
  compact_length : b.compact.1 = b.pointersDown.length
  /-- Packing puts the list into the lowest slots, the first pointer highest. -/
  compact_packed : ∀ k : Fin maxPointers, (k : ℕ) < b.pointersDown.length →
    b.pointersDown.reverse[(k : ℕ)]? = some (b.compact.2.pointers.get k)
  compact_rest : ∀ k : Fin maxPointers, b.pointersDown.length ≤ k → (k : ℕ) < b.slotCount.toNat →
    b.compact.2.pointers.get k = erasedPointer
  rank : b.rank p = if p ∈ b.pointersDown then b.pointersDown.idxOf p + 1 else 0
  /-- Anything but a change leaves the block as it was. -/
  enable_same : (b.enable p).1 ≠ .ok true → (b.enable p).2 = b
  disable_same : (b.disable p).1 = false → (b.disable p).2 = b
  /-- No operation touches the header or a slot that is not in use. -/
  frame : Frames b (b.enable p).2 ∧ Frames b (b.disable p).2 ∧ Frames b b.compact.2

/-- Whatever the slots of a block hold, its operations are those of a priority list. -/
theorem refinesList (b : PointerBlock) (p : UInt64) : b.RefinesList p where
  -- the reason of a refusal is no part of the list, any will do
  refused := by
    rw [← enable_eq_error_iff]
    constructor
    · rintro ⟨e, he, -⟩
      exact ⟨e, he⟩
    · rintro ⟨e, he⟩
      exact ⟨e, he, by cases e <;> rfl⟩
  enable_first := by
    rw [pointersDown_eq, enable_first_iff]
    exact ⟨fun htop => ⟨not_unplaceable_of_head? htop, htop⟩, And.right⟩
  enable_moved := by
    intro hno htop
    rw [pointersDown_eq] at htop
    have hok : (b.enable p).1 = .ok true := enable_moved_iff.mpr ⟨hno, htop⟩
    refine ⟨hok, ?_⟩
    rw [pointersDown_eq, pointersDown_eq, (enable_changed (Prod.ext hok rfl)).1]
    simp [bne, beq_eq_decide]
  disabled := by
    rw [changed_iff, pointersDown_eq, priorities_eq, mem_bootOrder, and_comm]
  disable_list := by
    rw [pointersDown_eq, pointersDown_eq, priorities_disable]
    simp [bne, beq_eq_decide]
  compact_list := by
    rw [pointersDown_eq, pointersDown_eq, priorities_compact]
  compact_length := by
    rw [pointersDown_eq, length_compact]
  compact_packed := by
    intro k hk
    rw [pointersDown_eq] at hk ⊢
    exact get_compact_packed hk
  compact_rest := by
    intro k hk hused
    rw [pointersDown_eq] at hk
    exact get_compact_rest hk hused
  rank := by
    rw [pointersDown_eq, rank_eq]
  enable_same := fun h => enable_not_changed rfl h
  disable_same := disable_of_not_changed
  frame := ⟨frames_enable b p, frames_disable b p, frames_compact b⟩

end PointerBlock

end RemoteUpdate
