import RemoteUpdate.Proofs.Table.Histories

/-!
# What the search for an overlap finds

A range and a partition can fail to be apart in two ways: they share a byte (`Shares`), or one of them is
empty and lies inside the other, away from its ends (`Splits`). The search takes both for an overlap. It
finds the first partition that is not apart from the range, and gives up only where an end does not fit in
64 bits. So it tells exactly which partition shares a byte with the range if neither of them is empty.
-/

namespace RemoteUpdate

namespace PartitionEntry

variable {e : PartitionEntry} {offset : UInt64} {length : UInt32}

/-- A byte address lies both in the range and in the partition. -/
def Shares (e : PartitionEntry) (offset : UInt64) (length : UInt32) : Prop :=
  ∃ a, (offset.toNat ≤ a ∧ a < offset.toNat + length.toNat) ∧ e.offset.toNat ≤ a ∧ a < e.top

/-- The range or the partition is empty, and lies inside the other one, away from its ends. -/
def Splits (e : PartitionEntry) (offset : UInt64) (length : UInt32) : Prop :=
  (length = 0 ∧ e.offset.toNat < offset.toNat ∧ offset.toNat < e.top) ∨
    (e.length = 0 ∧ offset.toNat < e.offset.toNat ∧ e.offset.toNat < offset.toNat + length.toNat)

theorem length_eq_zero_iff {n : UInt32} : n = 0 ↔ n.toNat = 0 := UInt32.toNat_inj.symm

/-- A range and a partition share a byte if they are not apart and neither is empty. -/
theorem shares_iff : e.Shares offset length ↔ ¬ e.Clear offset length ∧ length ≠ 0 ∧ e.length ≠ 0 := by
  rw [ne_eq, ne_eq, length_eq_zero_iff, length_eq_zero_iff]
  unfold Shares Clear Cells.Apart top
  constructor
  · rintro ⟨a, ⟨hlow, hhigh⟩, hstart, hstop⟩
    omega
  · rintro ⟨hclear, hlength, hown⟩
    -- the later one of the two starts
    exact ⟨max offset.toNat e.offset.toNat, by omega, by omega⟩

theorem not_clear_iff : ¬ e.Clear offset length ↔ e.Shares offset length ∨ e.Splits offset length := by
  rw [shares_iff, ne_eq, ne_eq]
  unfold Splits Clear Cells.Apart top
  rw [length_eq_zero_iff, length_eq_zero_iff]
  omega

end PartitionEntry

theorem LeastIndex.cons {p : PartitionEntry → Prop} {e : PartitionEntry} {l : List PartitionEntry}
    {found : Option ℕ} (he : ¬ p e) (h : LeastIndex p l found) :
    LeastIndex p (e :: l) (found.map (· + 1)) := by
  cases found with
  | none => exact List.forall_mem_cons.mpr ⟨he, h⟩
  | some i =>
    refine ⟨h.1, fun j hj f hf => ?_⟩
    cases j with
    | zero => exact Option.some.inj hf ▸ he
    | succ j => exact h.2 j (Nat.lt_of_succ_lt_succ hj) f hf

theorem LeastIndex.congr {p q : PartitionEntry → Prop} {l : List PartitionEntry} {found : Option ℕ}
    (hpq : ∀ e ∈ l, (p e ↔ q e)) (h : LeastIndex p l found) : LeastIndex q l found := by
  cases found with
  | none => exact fun e he hq => h e he ((hpq e he).mpr hq)
  | some i =>
    obtain ⟨⟨e, he, hp⟩, hleast⟩ := h
    refine ⟨⟨e, he, (hpq e (List.mem_of_getElem? he)).mp hp⟩, fun j hj f hf hq => ?_⟩
    exact hleast j hj f hf ((hpq f (List.mem_of_getElem? hf)).mpr hq)

namespace PartitionTable

open PartitionEntry

variable {offset : UInt64} {length : UInt32} {e : PartitionEntry} {l : List PartitionEntry}

/-- The search answers with the least index of a partition that is not apart from the range. -/
theorem leastIndex_of_firstOverlap {found : Option ℕ} (h : firstOverlap offset length l = .ok found) :
    LeastIndex (¬ ·.Clear offset length) l found := by
  induction l generalizing found with
  | nil =>
    obtain rfl := Except.ok.inj h
    exact List.forall_mem_nil _
  | cons e l ih =>
    rw [firstOverlap_cons] at h
    split at h
    · split at h
      next hclear =>
        cases hl : firstOverlap offset length l with
        | error failure =>
          rw [hl] at h
          cases h
        | ok rest =>
          rw [hl] at h
          obtain rfl := Except.ok.inj h
          exact (ih hl).cons (not_not_intro hclear)
      next hclear =>
        obtain rfl := Except.ok.inj h
        exact ⟨⟨e, rfl, hclear⟩, fun j hj => absurd hj (Nat.not_lt_zero j)⟩
    · cases h

/-- The search gives up at an entry that it cannot compare with the range, if all entries before it are
apart from the range. -/
theorem unbounded_of_firstOverlap {failure : UpdateError} (h : firstOverlap offset length l = .error failure) :
    failure = .invalidArgument ∧ ∃ i e, l[i]? = some e ∧ ¬ e.Bounded offset length ∧
      ∀ f ∈ l.take i, f.Clear offset length := by
  induction l with
  | nil => cases h
  | cons e l ih =>
    rw [firstOverlap_cons] at h
    split at h
    · split at h
      next hclear =>
        cases hl : firstOverlap offset length l with
        | error rest =>
          rw [hl] at h
          obtain rfl := Except.error.inj h
          obtain ⟨hfailure, i, f, hf, hbounded, hbefore⟩ := ih hl
          exact ⟨hfailure, i + 1, f, hf, hbounded, List.forall_mem_cons.mpr ⟨hclear, hbefore⟩⟩
        | ok found =>
          rw [hl] at h
          cases h
      next => cases h
    next hbounded => exact ⟨(Except.error.inj h).symm, 0, e, rfl, hbounded, List.forall_mem_nil _⟩

theorem exists_listed (h : l.length ≤ maxPartitions) : ∃ t : PartitionTable, t.listed = l := by
  induction l using List.reverseRecOn with
  | nil => exact ⟨empty, rfl⟩
  | append_singleton l e ih =>
    rw [List.length_append, List.length_singleton] at h
    obtain ⟨t, rfl⟩ := ih (Nat.le_of_succ_le h)
    obtain ⟨t', pushed⟩ := push_of_room (e := e) h
    exact ⟨t', (push_eq_ok pushed).2.1⟩

/-- **The search for an overlap is exact, but for empty ranges.** It finds the first listed partition that
shares a byte with the range, or that splits it or is split by it; if it finds none, there is none. It fails only
where it comes to a partition and an end does not fit in 64 bits. An empty partition or range apart, what it
finds is the first partition that shares a byte with the range. -/
theorem findOverlap_exact (t : PartitionTable) (offset : UInt64) (length : UInt32) :
    (match t.findOverlap offset length with
      | .ok found => LeastIndex (fun e => e.Shares offset length ∨ e.Splits offset length) t.listed found
      | .error failure => failure = .invalidArgument ∧ ∃ i e, t.listed[i]? = some e ∧
          (UInt64.size ≤ offset.toNat + length.toNat ∨ UInt64.size ≤ e.top) ∧
          ∀ f ∈ t.listed.take i, ¬ (f.Shares offset length ∨ f.Splits offset length)) ∧
    (length ≠ 0 → (∀ e ∈ t.listed, e.length ≠ 0) → ∀ found, t.findOverlap offset length = .ok found →
      LeastIndex (·.Shares offset length) t.listed found) := by
  refine ⟨?_, fun hlength hown found h => ?_⟩
  · cases h : t.findOverlap offset length with
    | ok found => exact (leastIndex_of_firstOverlap h).congr fun e _ => not_clear_iff
    | error failure =>
      obtain ⟨hfailure, i, e, he, hbounded, hbefore⟩ := unbounded_of_firstOverlap h
      refine ⟨hfailure, i, e, he, ?_, fun f hf => not_clear_iff.not_right.mp (hbefore f hf)⟩
      unfold Bounded at hbounded
      omega
  · refine (leastIndex_of_firstOverlap h).congr fun e he => ?_
    rw [shares_iff]
    exact ⟨fun hclear => ⟨hclear, hlength, hown e he⟩, And.left⟩

/-- The range starts where one partition ends, and ends behind the first byte of the next one. -/
theorem findOverlap_exact_next : ∃ t : PartitionTable,
    t.listed = [{ offset := 0x10000, length := 0x1000 }, { offset := 0x11800, length := 0x1000 }] ∧
    t.findOverlap 0x11000 0x801 = .ok (some 1) ∧ LeastIndex (·.Shares 0x11000 0x801) t.listed (some 1) := by
  obtain ⟨t, hlisted⟩ := exists_listed
    (l := [{ offset := 0x10000, length := 0x1000 }, { offset := 0x11800, length := 0x1000 }]) (by decide)
  have hfound : t.findOverlap 0x11000 0x801 = .ok (some 1) := by
    rw [findOverlap, hlisted]
    decide
  refine ⟨t, hlisted, hfound, (findOverlap_exact t 0x11000 0x801).2 (by decide) ?_ _ hfound⟩
  rw [hlisted]
  decide

/-- An empty range in the middle of a partition is found to overlap it, though they share no byte. -/
theorem empty_range_overlaps : ∃ (t : PartitionTable) (e : PartitionEntry), t.listed = [e] ∧
    t.findOverlap 0x10800 0 = .ok (some 0) ∧ ¬ e.Shares 0x10800 0 := by
  obtain ⟨t, hlisted⟩ := exists_listed (l := [{ offset := 0x10000, length := 0x1000 }]) (by decide)
  refine ⟨t, _, hlisted, ?_, fun hshares => (shares_iff.mp hshares).2.1 rfl⟩
  rw [findOverlap, hlisted]
  decide

end PartitionTable

end RemoteUpdate
