import RemoteUpdate.Proofs.Table.Codec
import RemoteUpdate.Proofs.Table.Partitions

/-!
# The partition table as a list of entries

An edit of a table in place answers what the same edit of a list of at most 127 entries answers, and
leaves a table that lists what the list has become (`RefinesEntries`). A table that has been edited from
the empty one on is `Canonical`: the header says nothing but the length of the list, and the places
behind the list are blank. So the list alone determines the bytes of such a table.
-/

namespace RemoteUpdate

/-! ### Edits -/

/-- A change to a list of partitions. -/
inductive Edit
  /-- Add an entry at the end. -/
  | push (e : PartitionEntry)
  /-- Take entry `i` out. -/
  | remove (i : ℕ)
  /-- Do anything to entry `i`. -/
  | amend (i : ℕ) (f : PartitionEntry → PartitionEntry)
  /-- Give entry `i` a name. -/
  | rename (i : ℕ) (name : String)

namespace Edit

/-- What an edit answers if it succeeds. -/
inductive Reply
  | index (i : ℕ)
  | entry (e : PartitionEntry)
  | done

/-- What an edit of a list of at most 127 entries answers, and the list it leaves. -/
def onList (l : List PartitionEntry) : Edit → Except UpdateError Reply × List PartitionEntry
  | .push e =>
    if l.length < maxPartitions then (.ok (.index l.length), l ++ [e]) else (.error .invalidArgument, l)
  | .remove i =>
    match l[i]? with
    | some e => (.ok (.entry e), l.eraseIdx i)
    | none => (.error .notFound, l)
  | .amend i f =>
    match l[i]? with
    | some e => (.ok .done, l.set i (f e))
    | none => (.error .notFound, l)
  | .rename i name =>
    match l[i]? with
    | some e =>
      if PartitionEntry.Nameable name then (.ok .done, l.set i (e.named name))
      else (.error .invalidArgument, l)
    | none => (.error .notFound, l)

end Edit

/-- The least index of a member of the list with the property, or none if no member has it. -/
def LeastIndex (p : PartitionEntry → Prop) (l : List PartitionEntry) : Option ℕ → Prop
  | some i => (∃ e, l[i]? = some e ∧ p e) ∧ ∀ j < i, ∀ e, l[j]? = some e → ¬ p e
  | none => ∀ e ∈ l, ¬ p e

theorem leastIndex_findIdx? (p : PartitionEntry → Bool) (l : List PartitionEntry) :
    LeastIndex (p · = true) l (l.findIdx? p) := by
  cases h : l.findIdx? p with
  | none =>
    intro e he
    simpa using List.findIdx?_eq_none_iff.mp h e he
  | some i =>
    obtain ⟨hi, hp, hleast⟩ := List.findIdx?_eq_some_iff_getElem.mp h
    refine ⟨⟨l[i], List.getElem?_eq_getElem hi, hp⟩, fun j hj e he => ?_⟩
    obtain ⟨hjl, rfl⟩ := List.getElem?_eq_some_iff.mp he
    exact hleast j hj

namespace PartitionTable

variable {t t' : PartitionTable} {e e' : PartitionEntry} {i : ℕ}

/-- What an edit in place comes to. All that an edit checks (that there is a place left, that the entry is
listed, that the name fits) it checks before it stores anything, so one that fails leaves the table there
was. -/
def settle {α : Type} (t : PartitionTable) (reply : α → Edit.Reply) :
    Except UpdateError (α × PartitionTable) → Except UpdateError Edit.Reply × PartitionTable
  | .ok (a, t') => (.ok (reply a), t')
  | .error f => (.error f, t)

/-- What an edit of the table in place answers, and the table it leaves. -/
def edited (t : PartitionTable) : Edit → Except UpdateError Edit.Reply × PartitionTable
  | .push e => t.settle .index (t.push e)
  | .remove i => t.settle .entry (t.remove i)
  | .amend i f => t.settle (fun _ => .done) ((t.modifyEntry i (pure ∘ f)).map ((), ·))
  | .rename i name => t.settle (fun _ => .done) ((t.modifyEntry i (·.rename name)).map ((), ·))

/-! ### One edit -/

theorem push_of_full (h : ¬ t.listed.length < maxPartitions) : t.push e = .error .invalidArgument := by
  rw [length_listed] at h
  exact if_neg h

theorem entry_of_unlisted (h : t.listed[i]? = none) : t.entry i = .error .notFound := by
  unfold entry
  rw [h]

theorem remove_of_unlisted (h : t.listed[i]? = none) : t.remove i = .error .notFound := by
  unfold remove
  rw [entry_of_unlisted h]
  rfl

/-- Editing the entry listed at an index puts what the edit makes of it into its place. -/
theorem modifyEntry_listed (h : t.listed[i]? = some e)
    (edit : PartitionEntry → Except UpdateError PartitionEntry) :
    t.modifyEntry i edit =
      (edit e).map fun e' => { t with entries := t.entries.setIfInBounds i e' } := by
  unfold modifyEntry
  rw [entry_eq_ok_iff.mpr h]
  cases he : edit e with
  | ok e' =>
    simp only [bind, Except.bind, he]
    rfl
  | error f =>
    simp only [bind, Except.bind, he]
    rfl

theorem modifyEntry_of_unlisted (h : t.listed[i]? = none)
    (edit : PartitionEntry → Except UpdateError PartitionEntry) :
    t.modifyEntry i edit = .error .notFound := by
  unfold modifyEntry
  rw [entry_of_unlisted h]
  rfl

theorem listed_setIfInBounds (t : PartitionTable) (i : ℕ) (e : PartitionEntry) :
    listed { t with entries := t.entries.setIfInBounds i e } = t.listed.set i e := by
  unfold listed
  rw [← List.take_set, Vector.toList_setIfInBounds]
  rfl

/-- An edit answers what the same edit of the list answers, and leaves what the list becomes. -/
theorem edited_listed (t : PartitionTable) (x : Edit) :
    (t.edited x).1 = (x.onList t.listed).1 ∧ (t.edited x).2.listed = (x.onList t.listed).2 := by
  -- each edit is refused on both sides at once: no room, no such entry or a bad name
  cases x with
  | push e =>
    simp only [edited, Edit.onList]
    by_cases h : t.listed.length < maxPartitions
    · obtain ⟨t', ht⟩ := push_of_room (e := e) h
      rw [ht, if_pos h]
      exact ⟨rfl, (push_eq_ok ht).2.1⟩
    · rw [push_of_full h, if_neg h]
      exact ⟨rfl, rfl⟩
  | remove i =>
    simp only [edited, Edit.onList]
    cases h : t.listed[i]? with
    | some e =>
      obtain ⟨t', ht⟩ := remove_of_listed h
      rw [ht]
      exact ⟨rfl, (remove_eq_ok ht).2.1⟩
    | none =>
      rw [remove_of_unlisted h]
      exact ⟨rfl, rfl⟩
  | amend i f =>
    simp only [edited, Edit.onList]
    cases h : t.listed[i]? with
    | some e =>
      rw [modifyEntry_listed h]
      exact ⟨rfl, listed_setIfInBounds ..⟩
    | none =>
      rw [modifyEntry_of_unlisted h]
      exact ⟨rfl, rfl⟩
  | rename i name =>
    simp only [edited, Edit.onList]
    cases h : t.listed[i]? with
    | some e =>
      rw [modifyEntry_listed h, PartitionEntry.rename_eq]
      by_cases hn : PartitionEntry.Nameable name
      · simp only [if_pos hn]
        exact ⟨rfl, listed_setIfInBounds ..⟩
      · simp only [if_neg hn]
        exact ⟨rfl, rfl⟩
    | none =>
      rw [modifyEntry_of_unlisted h]
      exact ⟨rfl, rfl⟩

/-! ### What an edit leaves alone -/

/-- The words of the header that are not the count are the same. -/
structure SameHeader (t t' : PartitionTable) : Prop where
  magic : t'.magic = t.magic
  version : t'.version = t.version
  reserved : t'.reserved = t.reserved

theorem SameHeader.refl (t : PartitionTable) : SameHeader t t :=
  ⟨rfl, rfl, rfl⟩

theorem SameHeader.trans {t'' : PartitionTable} (h : SameHeader t t') (h' : SameHeader t' t'') :
    SameHeader t t'' :=
  ⟨h'.magic.trans h.magic, h'.version.trans h.version, h'.reserved.trans h.reserved⟩

/-- Only the place of entry `i` may differ. -/
structure OnlyEntry (i : ℕ) (t t' : PartitionTable) : Prop where
  header : SameHeader t t'
  count : t'.count = t.count
  others : ∀ k : Fin maxPartitions, (k : ℕ) ≠ i → t'.entries.get k = t.entries.get k

theorem OnlyEntry.refl (i : ℕ) (t : PartitionTable) : OnlyEntry i t t :=
  ⟨.refl t, rfl, fun _ _ => rfl⟩

theorem onlyEntry_setIfInBounds (t : PartitionTable) (i : ℕ) (e : PartitionEntry) :
    OnlyEntry i t { t with entries := t.entries.setIfInBounds i e } where
  header := ⟨rfl, rfl, rfl⟩
  count := rfl
  others k hk := Vector.getElem_setIfInBounds_ne k.isLt (Ne.symm hk)

theorem onlyEntry_modifyEntry (t : PartitionTable) (i : ℕ)
    (edit : PartitionEntry → Except UpdateError PartitionEntry) :
    OnlyEntry i t (t.settle (fun _ => .done) ((t.modifyEntry i edit).map ((), ·))).2 := by
  cases h : t.listed[i]? with
  | none =>
    rw [modifyEntry_of_unlisted h]
    exact .refl i t
  | some e =>
    rw [modifyEntry_listed h]
    cases edit e with
    | ok e' => exact onlyEntry_setIfInBounds t i e'
    | error f => exact .refl i t

/-- A removal that succeeds is that of a listed entry, and moves the later ones down. -/
theorem remove_moved (h : t.remove i = .ok (e, t')) :
    i < t.size ∧ t'.count = .ofNat (t.size - 1) ∧ SameHeader t t' ∧
      ∀ k : Fin maxPartitions, t'.entries.get k =
        if (k : ℕ) < i ∨ t.size ≤ k then t.entries.get k
        else if (k : ℕ) + 1 < t.size then t.entries.toArray.getD (k + 1) .blank
        else .blank := by
  unfold remove at h
  cases he : t.entry i with
  | error f =>
    rw [he] at h
    cases h
  | ok removed =>
    rw [he] at h
    obtain ⟨rfl, rfl⟩ := Prod.mk.inj (Except.ok.inj h)
    refine ⟨?_, rfl, ⟨rfl, rfl, rfl⟩, fun k => Vector.getElem_ofFn k.isLt⟩
    rw [← length_listed]
    exact (List.getElem?_eq_some_iff.mp (entry_eq_ok_iff.mp he)).1

theorem sameHeader_edited (t : PartitionTable) (x : Edit) : SameHeader t (t.edited x).2 := by
  cases x with
  | push e =>
    simp only [edited]
    unfold push
    split
    · exact ⟨rfl, rfl, rfl⟩
    · exact .refl t
  | remove i =>
    simp only [edited]
    cases h : t.remove i with
    | ok r => exact (remove_moved h).2.2.1
    | error f => exact .refl t
  | amend i f => exact (onlyEntry_modifyEntry t i (pure ∘ f)).header
  | rename i name => exact (onlyEntry_modifyEntry t i (·.rename name)).header

theorem settle_of_error {α : Type} {reply : α → Edit.Reply} {r : Except UpdateError (α × PartitionTable)}
    {f : UpdateError} (h : (t.settle reply r).1 = .error f) : (t.settle reply r).2 = t := by
  cases r with
  | ok p => cases h
  | error g => rfl

theorem edited_of_error {x : Edit} {f : UpdateError} (h : (t.edited x).1 = .error f) :
    (t.edited x).2 = t := by
  cases x with
  | push e => exact settle_of_error h
  | remove i => exact settle_of_error h
  | amend i g => exact settle_of_error h
  | rename i name => exact settle_of_error h

/-! ### Refinement -/

/-- What a table answers and becomes is what the list of its entries answers and becomes. -/
structure RefinesEntries (t : PartitionTable) : Prop where
  bounded : t.listed.length ≤ maxPartitions
  /-- The list is what the count covers. -/
  covered : t.count.toNat ≤ maxPartitions → t.listed = t.entries.toList.take t.count.toNat ∧
    t.listed.length = t.count.toNat
  reads : ∀ i, t.entry i = t.listed[i]?.elim (.error .notFound) .ok
  answers : ∀ x, (t.edited x).1 = (x.onList t.listed).1
  becomes : ∀ x, (t.edited x).2.listed = (x.onList t.listed).2
  refused : ∀ x f, (t.edited x).1 = .error f → (t.edited x).2 = t
  /-- What is done to an entry is done to no other place, listed or not. -/
  amended : ∀ i f, OnlyEntry i t (t.edited (.amend i f)).2
  renamed : ∀ i name, OnlyEntry i t (t.edited (.rename i name)).2
  header : ∀ x, SameHeader t (t.edited x).2
  /-- The first entry of a name, and the first one at an offset, is found. -/
  byName : ∀ name, LeastIndex (·.nameBytes = nameOf name) t.listed (t.findName? name)
  byOffset : ∀ offset, LeastIndex (·.offset = offset) t.listed (t.findOffset? offset)

/-- Whatever a table holds, it stands for the list of its entries. -/
theorem refinesEntries (t : PartitionTable) : t.RefinesEntries where
  bounded := by
    rw [length_listed]
    exact Nat.min_le_right ..
  covered h := by
    rw [length_listed, listed, size, Nat.min_eq_left h]
    exact ⟨rfl, rfl⟩
  reads i := by
    unfold entry
    cases t.listed[i]? with
    | some e => rfl
    | none => rfl
  answers x := (t.edited_listed x).1
  becomes x := (t.edited_listed x).2
  refused _ _ := edited_of_error
  amended i f := onlyEntry_modifyEntry t i (pure ∘ f)
  renamed i name := onlyEntry_modifyEntry t i (·.rename name)
  header := t.sameHeader_edited
  byName name := by
    have h := leastIndex_findIdx? (·.isNamed name) t.listed
    simp only [PartitionEntry.isNamed_iff] at h
    exact h
  byOffset offset := by
    have h := leastIndex_findIdx? (·.offset == offset) t.listed
    simp only [beq_iff_eq] at h
    exact h

/-! ### Histories -/

def history (t : PartitionTable) : List Edit → List (Except UpdateError Edit.Reply) × PartitionTable
  | [] => ([], t)
  | x :: xs => ((t.edited x).1 :: ((t.edited x).2.history xs).1, ((t.edited x).2.history xs).2)

def listHistory (l : List PartitionEntry) :
    List Edit → List (Except UpdateError Edit.Reply) × List PartitionEntry
  | [] => ([], l)
  | x :: xs => ((x.onList l).1 :: (listHistory (x.onList l).2 xs).1, (listHistory (x.onList l).2 xs).2)

theorem history_listed (t : PartitionTable) (xs : List Edit) :
    (t.history xs).1 = (listHistory t.listed xs).1 ∧
      (t.history xs).2.listed = (listHistory t.listed xs).2 := by
  induction xs generalizing t with
  | nil => exact ⟨rfl, rfl⟩
  | cons x xs ih =>
    obtain ⟨hanswer, hlisted⟩ := t.edited_listed x
    obtain ⟨hanswers, hleft⟩ := ih (t.edited x).2
    rw [hlisted] at hanswers hleft
    simp only [history, listHistory]
    exact ⟨by rw [hanswer, hanswers], hleft⟩

theorem sameHeader_history (t : PartitionTable) (xs : List Edit) : SameHeader t (t.history xs).2 := by
  induction xs generalizing t with
  | nil => exact .refl t
  | cons x xs ih => exact (t.sameHeader_edited x).trans (ih _)

/-- Nothing but the list shows: the header is that of the empty table but for the count, which is no more
than there is room for, and the places behind the list are blank. -/
structure Canonical (t : PartitionTable) : Prop where
  header : SameHeader empty t
  count : t.count.toNat ≤ maxPartitions
  blank : ∀ k : Fin maxPartitions, t.listed.length ≤ k → t.entries.get k = .blank

theorem canonical_empty : Canonical empty where
  header := .refl empty
  count := Nat.zero_le _
  blank k _ := Vector.getElem_replicate k.isLt

/-- The places behind the list of a canonical table are blank, also counted by its size. -/
theorem Canonical.blank_of_size (h : t.Canonical) {k : Fin maxPartitions} (hk : t.size ≤ k) :
    t.entries.get k = .blank :=
  h.blank k (length_listed.trans_le hk)

/-- A canonical table is one whose count is the length of its list. -/
theorem Canonical.count_eq (h : t.Canonical) : t.count = .ofNat t.listed.length := by
  rw [length_listed, size, Nat.min_eq_left h.count]
  exact (UInt32.ofNat_toNat).symm

theorem toNat_count {n : ℕ} (h : n ≤ maxPartitions) (ht : t.count = .ofNat n) :
    t.count.toNat = n := by
  have : n < UInt32.size := Nat.lt_of_le_of_lt h (by decide)
  rw [ht, UInt32.toNat_ofNat_of_lt' this]

/-- Editing a listed entry keeps a table canonical: no place behind the list is touched. -/
theorem Canonical.modifyEntry (h : t.Canonical) (i : ℕ)
    (edit : PartitionEntry → Except UpdateError PartitionEntry) :
    (t.settle (fun _ => .done) ((t.modifyEntry i edit).map ((), ·))).2.Canonical := by
  cases hi : t.listed[i]? with
  | none =>
    rw [modifyEntry_of_unlisted hi]
    exact h
  | some e =>
    have hlt : i < t.listed.length := (List.getElem?_eq_some_iff.mp hi).1
    rw [modifyEntry_listed hi]
    cases edit e with
    | error f => exact h
    | ok e' =>
      refine ⟨h.header.trans ⟨rfl, rfl, rfl⟩, h.count, fun k hk => ?_⟩
      have hk' : t.listed.length ≤ k := by
        have hlength : (t.listed.set i e').length = t.listed.length := List.length_set
        rwa [← hlength, ← listed_setIfInBounds]
      rw [← h.blank k hk']
      exact (onlyEntry_setIfInBounds t i e').others k (by omega)

/-- An edit keeps a table canonical. A removal shows why the last place has to be blanked: it is the one
that the shorter list no longer covers. -/
theorem Canonical.edited (h : t.Canonical) (x : Edit) : (t.edited x).2.Canonical := by
  cases x with
  | push e =>
    simp only [PartitionTable.edited]
    by_cases hroom : t.listed.length < maxPartitions
    · obtain ⟨t', ht⟩ := push_of_room (e := e) hroom
      have hlisted := (push_eq_ok ht).2.1
      rw [ht]
      rw [length_listed] at hroom
      unfold push at ht
      rw [if_pos hroom] at ht
      obtain ⟨-, rfl⟩ := Prod.mk.inj (Except.ok.inj ht)
      refine ⟨h.header.trans ⟨rfl, rfl, rfl⟩, (toNat_count hroom rfl).trans_le hroom, fun k hk => ?_⟩
      simp only [settle] at hk
      rw [hlisted, List.length_append, length_listed, List.length_singleton] at hk
      have hne : t.size ≠ k := by omega
      -- the new entry stands at the old end, so what lies behind it was blank before
      rw [← h.blank_of_size (k := k) (by omega)]
      exact Vector.getElem_setIfInBounds_ne k.isLt hne
    · rw [push_of_full hroom]
      exact h
  | remove i =>
    simp only [PartitionTable.edited]
    cases hr : t.remove i with
    | error f => exact h
    | ok r =>
      obtain ⟨e, t'⟩ := r
      obtain ⟨hi, hcount, hheader, hmoved⟩ := remove_moved hr
      have hs : t.size ≤ maxPartitions := Nat.min_le_right ..
      have hpred : t.size - 1 ≤ maxPartitions := by omega
      refine ⟨h.header.trans hheader, (toNat_count hpred hcount).trans_le hpred, fun k hk => ?_⟩
      simp only [settle] at hk ⊢
      rw [length_listed, size_of_count hpred hcount] at hk
      rw [hmoved k]
      -- removing moves the tail one place forward, and the slot it frees is blanked
      by_cases hbehind : t.size ≤ k
      · rw [if_pos (Or.inr hbehind), h.blank_of_size hbehind]
      · rw [if_neg (by omega), if_neg (by omega)]
  | amend i f => exact h.modifyEntry i (pure ∘ f)
  | rename i name => exact h.modifyEntry i (·.rename name)

theorem Canonical.history (h : t.Canonical) (xs : List Edit) : (t.history xs).2.Canonical := by
  induction xs generalizing t with
  | nil => exact h
  | cons x xs ih => exact ih (h.edited x)

/-- The list determines a canonical table. -/
theorem Canonical.eq_of_listed (h : t.Canonical) (h' : t'.Canonical) (hl : t.listed = t'.listed) :
    t = t' := by
  have hcount : t.count = t'.count := by rw [h.count_eq, h'.count_eq, hl]
  have hentries : t.entries = t'.entries := by
    refine Vector.ext fun k hk => ?_
    by_cases hin : k < t.size
    · have hin' : k < t'.size := by
        rwa [← length_listed, ← hl, length_listed]
      have hget : t.listed[k]? = t'.listed[k]? := by rw [hl]
      rw [getElem?_listed, getElem?_listed, if_pos hin, if_pos hin', Vector.getElem?_toList,
        Vector.getElem?_toList, Vector.getElem?_eq_getElem hk, Vector.getElem?_eq_getElem hk] at hget
      exact Option.some.inj hget
    · have hlen : t.listed.length ≤ k := by
        rw [length_listed]
        omega
      exact (h.blank ⟨k, hk⟩ hlen).trans (h'.blank ⟨k, hk⟩ (hl ▸ hlen)).symm
  have hmagic := h.header.magic.trans h'.header.magic.symm
  have hversion := h.header.version.trans h'.header.version.symm
  have hreserved := h.header.reserved.trans h'.header.reserved.symm
  cases t
  cases t'
  simp only [PartitionTable.mk.injEq]
  exact ⟨hmagic, hversion, hcount, hreserved, hentries⟩

theorem listed_empty : empty.listed = [] := rfl

/-- The partition table is a list of at most 127 entries in canonical form. Every table refines the list
of its entries, one edit at a time and over whole histories; renaming gives exactly the name, or nothing
changes; and after any history that begins with the empty table the places behind the list are zero, so
that the bytes of the table are told by the list alone. -/
theorem histories_refine_list :
    (∀ t : PartitionTable, t.RefinesEntries) ∧
    (∀ (e : PartitionEntry) (name : String),
      e.rename name = (if PartitionEntry.Nameable name then .ok (e.named name)
        else .error .invalidArgument) ∧
      ∀ e', e.rename name = .ok e' → e'.nameBytes = nameOf name ∧
        e' = { e with name := e'.name }) ∧
    (∀ (t : PartitionTable) (xs : List Edit), (t.history xs).1 = (listHistory t.listed xs).1 ∧
      (t.history xs).2.listed = (listHistory t.listed xs).2 ∧ SameHeader t (t.history xs).2) ∧
    (∀ (xs : List Edit) (k : Fin maxPartitions), (empty.history xs).2.listed.length ≤ k →
      ((empty.history xs).2.entries.get k).encode = List.replicate PartitionEntry.byteSize 0) ∧
    ∀ xs ys : List Edit, (listHistory [] xs).2 = (listHistory [] ys).2 →
      (empty.history xs).2.encode = (empty.history ys).2.encode ∧
      (empty.history xs).2.encode.length = tableSize := by
  refine ⟨refinesEntries, fun e name => ⟨PartitionEntry.rename_eq e name, fun e' h => ?_⟩,
    fun t xs => ⟨(t.history_listed xs).1, (t.history_listed xs).2, t.sameHeader_history xs⟩,
    fun xs k hk => ?_, fun xs ys h => ?_⟩
  · obtain ⟨hname, hoffset, hlength, hflags⟩ := PartitionEntry.rename_eq_ok h
    refine ⟨hname, ?_⟩
    cases e'
    cases hoffset
    cases hlength
    cases hflags
    rfl
  · rw [(canonical_empty.history xs).blank k hk]
    decide
  · -- a canonical table is fixed by its list, and every history of the empty one is canonical
    have hsame : (empty.history xs).2 = (empty.history ys).2 := by
      refine (canonical_empty.history xs).eq_of_listed (canonical_empty.history ys) ?_
      rw [(history_listed empty xs).2, (history_listed empty ys).2, listed_empty, h]
    exact ⟨by rw [hsame], length_encode _⟩

/-- A partition that has been there and is gone leaves no trace. -/
theorem histories_refine_list_removed :
    (empty.history [.push { offset := 0x10000 }, .push { offset := 0x20000 },
      .amend 1 fun e => { e with flags := 2 }, .remove 0, .remove 7]).2.encode =
    (empty.history [.push { offset := 0x20000, flags := 2 }]).2.encode := by
  obtain ⟨-, -, -, -, determined⟩ := histories_refine_list
  refine (determined _ _ ?_).1
  simp [listHistory, Edit.onList, maxPartitions]

end PartitionTable

end RemoteUpdate
