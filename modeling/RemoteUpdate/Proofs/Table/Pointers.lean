import Mathlib.Data.List.Induction
import RemoteUpdate.Table.Pointers

/-!
# The pointer block as a boot order

A block stands for the list `priorities` of its pointers, first to boot first. Taking a pointer out
filters the list, and enabling a pointer puts it in front: where the pointers are in the block, and
whether they were packed on the way, does not show.
-/

namespace RemoteUpdate

namespace PointerBlock

variable {b b' : PointerBlock} {p q : UInt64} {l slots : List UInt64}

/-! ### Slots -/

theorem defect?_eq_none_iff :
    b.defect? = none ↔ b.magic = magicNumber ∧ b.slotCount.toNat ≤ maxPointers := by
  unfold defect?
  by_cases hm : b.magic = magicNumber
  · by_cases hc : maxPointers < b.slotCount.toNat
    · simp [hm, hc]
    · simp [hm, hc, Nat.not_lt.mp hc]
  · simp [hm]

theorem defect?_empty (n : ℕ) : (empty n).defect? = none := by
  rw [defect?_eq_none_iff]
  refine ⟨rfl, ?_⟩
  have : min n maxPointers ≤ maxPointers := Nat.min_le_right ..
  have hsize : min n maxPointers < UInt32.size := Nat.lt_of_le_of_lt this (by decide)
  unfold empty
  dsimp only
  rwa [UInt32.toNat_ofNat_of_lt' hsize]

theorem size_le : b.size ≤ maxPointers :=
  Nat.min_le_right ..

theorem length_slots : b.slots.length = b.size := by
  unfold slots
  rw [List.length_take, Vector.length_toList]
  exact Nat.min_eq_left size_le

theorem defect?_withSlots : (b.withSlots slots).defect? = b.defect? := by
  unfold withSlots defect?
  dsimp only

theorem size_withSlots : (b.withSlots slots).size = b.size := by
  simp only [size, withSlots]

theorem slots_withSlots (h : slots.length = b.size) : (b.withSlots slots).slots = slots := by
  have hs := b.size_le
  refine List.ext_getElem? fun k => ?_
  rw [PointerBlock.slots, List.getElem?_take, size_withSlots, withSlots, Vector.toList_ofFn,
    List.getElem?_ofFn]
  by_cases hk : k < b.size
  · have hl : k < slots.length := by omega
    rw [if_pos hk, dif_pos (by omega)]
    dsimp only
    rw [if_pos hk, Array.getD_eq_getD_getElem?, List.getElem?_toArray, List.getElem?_eq_getElem hl]
    rfl
  · rw [if_neg hk, List.getElem?_eq_none (by omega)]

/-! ### Boot order of a list of slots -/

/-- The pointers among the slots, from the last one on. -/
def bootOrder (slots : List UInt64) : List UInt64 := slots.reverse.filter isPointer

theorem priorities_eq : b.priorities = bootOrder b.slots := rfl

theorem mem_bootOrder : q ∈ bootOrder slots ↔ q ∈ slots ∧ isPointer q := by
  simp [bootOrder]

/-- Clearing the slots of a pointer takes it out of the boot order. -/
theorem bootOrder_clear (p : UInt64) (slots : List UInt64) :
    bootOrder (slots.map fun q => if q == p then clearedPointer else q) =
      (bootOrder slots).filter (· != p) := by
  have hc : isPointer clearedPointer = false := by decide
  unfold bootOrder
  rw [← List.map_reverse, List.filter_filter]
  simp only [beq_iff_eq]
  induction slots.reverse with
  | nil => rfl
  | cons q l ih =>
    rw [List.map_cons]
    by_cases hq : q = p
    · rw [if_pos hq, List.filter_cons_of_neg (by simp [hc]), List.filter_cons_of_neg (by simp [hq]), ih]
    · rw [if_neg hq]
      by_cases hp : isPointer q
      · rw [List.filter_cons_of_pos hp, List.filter_cons_of_pos (by simp [hq, hp]), ih]
      · rw [List.filter_cons_of_neg hp, List.filter_cons_of_neg (by simp [hp]), ih]

/-- A pointer stored above all others comes first. -/
theorem bootOrder_set {k : ℕ} (hp : isPointer p) (hk : k < slots.length)
    (ha : ∀ q ∈ slots.drop k, isPointer q = false) :
    bootOrder (slots.set k p) = p :: bootOrder slots := by
  have hd : slots.drop k = slots[k] :: slots.drop (k + 1) := List.drop_eq_getElem_cons hk
  have none_above : (slots.drop (k + 1)).reverse.filter isPointer = [] := by
    rw [List.filter_eq_nil_iff]
    intro q hq
    rw [ha q (by rw [hd]; exact List.mem_cons_of_mem _ (List.mem_reverse.mp hq))]
    decide
  have here : isPointer slots[k] = false := ha _ (by rw [hd]; exact List.mem_cons_self)
  have hsplit : bootOrder slots = (slots.take k).reverse.filter isPointer := by
    unfold bootOrder
    conv_lhs => rw [← List.take_append_drop k slots, hd]
    rw [List.reverse_append, List.reverse_cons, List.filter_append, List.filter_append, none_above,
      List.filter_cons_of_neg (by simp [here]), List.filter_nil, List.append_nil, List.nil_append]
  rw [hsplit, bootOrder, List.set_eq_take_append_cons_drop, if_pos hk]
  simp [none_above, hp]

theorem bootOrder_pack (slots : List UInt64) : bootOrder (packSlots slots) = bootOrder slots := by
  have he : isPointer erasedPointer = false := by decide
  unfold bootOrder packSlots
  dsimp only
  rw [List.reverse_append, List.filter_append, List.reverse_replicate, List.filter_replicate_of_neg,
    List.nil_append, List.filter_reverse, List.filter_reverse, List.filter_filter]
  · simp
  · simp [he]

theorem length_packSlots (slots : List UInt64) : (packSlots slots).length = slots.length := by
  have := List.length_filter_le isPointer slots
  unfold packSlots
  simp only [List.length_append, List.length_replicate]
  omega

/-! ### The topmost pointer -/

/-- The slot above the topmost pointer. -/
def above (b : PointerBlock) : ℕ :=
  match b.order.head? with
  | some top => top + 1
  | none => 0

theorem above_spec : b.above ≤ b.size ∧ ∀ q ∈ b.slots.drop b.above, isPointer q = false := by
  unfold above order
  rw [← length_slots]
  induction b.slots using List.reverseRecOn with
  | nil => simp
  | append_singleton l x ih =>
    by_cases hx : isPointer x
    · simp [List.zipIdx_append, hx]
    · have e : ((l ++ [x]).zipIdx.reverse.filter fun s => isPointer s.1) =
          l.zipIdx.reverse.filter fun s => isPointer s.1 := by
        simp [List.zipIdx_append, hx]
      rw [e]
      obtain ⟨hle, hno⟩ := ih
      refine ⟨by rw [List.length_append]; omega, ?_⟩
      rw [List.drop_append_of_le_length hle]
      intro q hq
      rcases List.mem_append.mp hq with hq | hq
      · exact hno q hq
      · rw [List.mem_singleton.mp hq]
        exact Bool.eq_false_iff.mpr hx

/-! ### Taking a pointer out and putting one on top -/

theorem priorities_disable : (b.disable p).2.priorities = b.priorities.filter (· != p) := by
  unfold disable
  split
  · rw [priorities_eq, slots_withSlots (by rw [List.length_map, length_slots]), bootOrder_clear]
    rfl
  next h =>
    rw [eq_comm, List.filter_eq_self]
    intro q hq
    rw [priorities_eq, mem_bootOrder] at hq
    have : q ≠ p := fun e => h (by simpa [← e, hq.2] using hq.1)
    simpa using this

theorem defect?_disable : (b.disable p).2.defect? = b.defect? := by
  unfold disable
  split
  · exact defect?_withSlots
  · rfl

theorem changed_iff : (b.disable p).1 = true ↔ isPointer p ∧ p ∈ b.slots := by
  unfold disable
  split
  next h => simpa using h
  next h => simpa using h

theorem slots_of_changed (h : (b.disable p).1 = true) :
    (b.disable p).2.slots = b.slots.map fun q => if q == p then clearedPointer else q := by
  have hc : isPointer p && b.slots.contains p := by simpa using changed_iff.mp h
  unfold disable
  rw [if_pos hc, slots_withSlots (by rw [List.length_map, length_slots])]

theorem disable_of_not_changed (h : (b.disable p).1 = false) : (b.disable p).2 = b := by
  unfold disable at h ⊢
  split at h
  · cases h
  next hn => rw [if_neg hn]

/-- With room above all pointers, or else with the pointers packed, a pointer goes on top. -/
theorem priorities_raise {target : ℕ} (hp : isPointer p) (hfull : ¬ b.slots.all isPointer)
    (h : (if b.above < b.size then (b.above, b) else b.compact) = (target, b')) :
    (b'.withSlots (b'.slots.set target p)).priorities = p :: b.priorities ∧
      b'.defect? = b.defect? := by
  obtain ⟨hle, hno⟩ := b.above_spec
  -- there is room above the highest pointer, or packing them makes some
  split at h
  next hroom =>
    obtain ⟨rfl, rfl⟩ := Prod.mk.inj h
    refine ⟨?_, rfl⟩
    rw [priorities_eq, slots_withSlots (by rw [List.length_set, length_slots])]
    exact bootOrder_set hp (by rwa [length_slots]) hno
  · obtain ⟨rfl, rfl⟩ := Prod.mk.inj h
    have hl : (packSlots b.slots).length = b.size := by rw [length_packSlots, length_slots]
    have hheld : (b.slots.filter isPointer).length < b.slots.length := by
      rw [List.length_filter_lt_length_iff_exists]
      simpa using hfull
    refine ⟨?_, defect?_withSlots⟩
    rw [slots_withSlots hl, priorities_eq, slots_withSlots (by rw [List.length_set, hl, size_withSlots]),
      bootOrder_set hp (by rwa [length_packSlots]), bootOrder_pack]
    · rfl
    · intro q hq
      unfold packSlots at hq
      dsimp only at hq
      rw [List.drop_left, List.mem_replicate] at hq
      rw [hq.2]
      decide

/-- Where putting a pointer on top goes on after it has been taken out. -/
theorem enable_eq_raise {target : ℕ} {raised : PointerBlock} (hp : ¬ (!isPointer p || b.slots.isEmpty))
    (htop : ¬ b.priorities.head? == some p) (hfull : ¬ (b.disable p).2.slots.all isPointer)
    (h : (if (b.disable p).2.above < (b.disable p).2.size then
      ((b.disable p).2.above, (b.disable p).2) else (b.disable p).2.compact) = (target, raised)) :
    b.enable p = (.ok true, raised.withSlots (raised.slots.set target p)) := by
  have htarget := congrArg Prod.fst h
  have hraised := congrArg Prod.snd h
  dsimp only at htarget hraised
  rw [← htarget, ← hraised]
  unfold enable
  rw [if_neg hp, if_neg htop]
  dsimp only
  rw [if_neg hfull]
  rfl

/-- A pointer that is put on top is first to boot, and the others keep their order. -/
theorem enable_changed (h : b.enable p = (.ok true, b')) :
    b'.priorities = p :: b.priorities.filter (· != p) ∧ b'.defect? = b.defect? ∧ isPointer p := by
  by_cases hp : !isPointer p || b.slots.isEmpty
  · rw [enable, if_pos hp] at h
    cases h
  by_cases htop : b.priorities.head? == some p
  · rw [enable, if_neg hp, if_pos htop] at h
    cases h
  by_cases hfull : (b.disable p).2.slots.all isPointer
  · rw [enable, if_neg hp, if_neg htop] at h
    dsimp only at h
    rw [if_pos hfull] at h
    cases h
  obtain ⟨⟨target, raised⟩, hraised⟩ : ∃ r, (if (b.disable p).2.above < (b.disable p).2.size then
      ((b.disable p).2.above, (b.disable p).2) else (b.disable p).2.compact) = r := ⟨_, rfl⟩
  rw [enable_eq_raise hp htop hfull hraised] at h
  obtain rfl := (Prod.mk.inj h).2
  have hp : isPointer p = true := by
    simp only [Bool.or_eq_true, Bool.not_eq_true', not_or, Bool.not_eq_false] at hp
    exact hp.1
  obtain ⟨hprio, hdef⟩ := priorities_raise hp hfull hraised
  refine ⟨?_, ?_, hp⟩
  · rw [hprio, priorities_disable]
  · rw [defect?_withSlots, hdef, defect?_disable]

/-- If putting a pointer on top is refused or changes nothing, the block is left as it was. -/
theorem enable_not_changed {r : Except PlacementError Bool} (h : b.enable p = (r, b'))
    (hr : r ≠ .ok true) : b' = b := by
  unfold enable at h
  split at h
  · exact (Prod.mk.inj h).2.symm
  · split at h
    · exact (Prod.mk.inj h).2.symm
    next hp _ =>
      dsimp only at h
      split at h
      next hfull =>
        obtain ⟨-, rfl⟩ := Prod.mk.inj h
        -- a block that is full after a pointer was taken out did not hold it
        refine disable_of_not_changed (Bool.eq_false_iff.mpr fun hc => ?_)
        have hslots := slots_of_changed hc
        obtain ⟨hp, hmem⟩ := changed_iff.mp hc
        have : isPointer clearedPointer := by
          rw [List.all_eq_true] at hfull
          refine hfull _ ?_
          rw [hslots, List.mem_map]
          exact ⟨p, hmem, by simp⟩
        exact absurd this (by decide)
      · exact absurd (Prod.mk.inj h).1.symm hr

end PointerBlock

end RemoteUpdate
