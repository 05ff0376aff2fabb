import Mathlib.Data.Nat.Notation
import RemoteUpdate.Host.FileStore
import RemoteUpdate.Proofs.Flash.Cells

/-!
# Files

Directories stay where they are when a file is made or replaced, and so a path leads where it led. Two stores
that differ in one file differ in nothing else as long as both are asked for the same, and never for that file.
-/

namespace RemoteUpdate.FileStore

variable {s t u : FileStore} {l l' p : FileLocation} {names : List String} {path : String}
  {contents : ByteArray}

/-! ### What is there -/

/-- There is something at the location, or below it. -/
def Holds (s : FileStore) (l : FileLocation) : Prop :=
  ∃ q ∈ sinkLocation :: s.directories ++ s.files.map (·.1), l <+: q

theorem Holds.above (h : s.Holds l) (hp : p <+: l) : s.Holds p := by
  obtain ⟨q, hq, hlq⟩ := h
  exact ⟨q, hq, hp.trans hlq⟩

theorem holds_of_lookup (h : s.files.lookup l = some contents) : s.Holds l := by
  obtain ⟨before, after, hfiles, -⟩ := List.lookup_eq_some_iff.mp h
  refine ⟨l, ?_, List.prefix_rfl⟩
  simp [hfiles]

theorem any_isPrefixOf : (sinkLocation :: s.directories ++ s.files.map (·.1)).any l.isPrefixOf = true ↔
    s.Holds l := by
  simp only [List.any_eq_true, List.isPrefixOf_iff_prefix, Holds]

theorem node_of_lookup (hsink : l ≠ sinkLocation) (hlookup : s.files.lookup l = none) :
    (s.Holds l → s.node l = .directory) ∧ (¬ s.Holds l → s.node l = .missing) := by
  unfold node
  rw [if_neg hsink, hlookup]
  exact ⟨fun h => if_pos (any_isPrefixOf.mpr h), fun h => if_neg (mt any_isPrefixOf.mp h)⟩

theorem node_of_file (hsink : l ≠ sinkLocation) (hlookup : s.files.lookup l = some contents) :
    s.node l = .file contents := by
  unfold node
  rw [if_neg hsink, hlookup]

/-- Nothing is missing that something is at or below. -/
theorem node_eq_missing_iff : s.node l = .missing ↔ ¬ s.Holds l := by
  by_cases hsink : l = sinkLocation
  · simp [node, Holds, hsink]
  cases hlookup : s.files.lookup l with
  | some contents => simp [node_of_file hsink hlookup, holds_of_lookup hlookup]
  | none =>
    by_cases h : s.Holds l
    · simp [(node_of_lookup hsink hlookup).1 h, h]
    · simp [(node_of_lookup hsink hlookup).2 h, h]

/-- Whatever something is in is there. -/
theorem node_above (h : s.node l ≠ .missing) (hp : p <+: l) : s.node p ≠ .missing := fun hmissing =>
  h (node_eq_missing_iff.mpr (mt (Holds.above · hp) (node_eq_missing_iff.mp hmissing)))

theorem node_sink : s.node sinkLocation = .sink := if_pos rfl

theorem node_congr (hlookup : s.files.lookup l = t.files.lookup l) (h : s.Holds l ↔ t.Holds l) :
    s.node l = t.node l := by
  by_cases hsink : l = sinkLocation
  · simp [node, hsink]
  cases hs : s.files.lookup l with
  | some contents => rw [node_of_file hsink hs, node_of_file hsink (hlookup.symm.trans hs)]
  | none =>
    have ht : t.files.lookup l = none := hlookup.symm.trans hs
    by_cases hholds : s.Holds l
    · rw [(node_of_lookup hsink hs).1 hholds, (node_of_lookup hsink ht).1 (h.mp hholds)]
    · rw [(node_of_lookup hsink hs).2 hholds, (node_of_lookup hsink ht).2 (mt h.mpr hholds)]

theorem lookup_put (contents : ByteArray) (h : l' ≠ l) :
    (s.put l contents).files.lookup l' = s.files.lookup l' := by
  have hfilter : ∀ files : List (FileLocation × ByteArray),
      (files.filter (·.1 != l)).lookup l' = files.lookup l' := by
    intro files
    induction files with
    | nil => rfl
    | cons file files ih =>
      obtain ⟨key, bytes⟩ := file
      by_cases hkey : key = l
      · simp [hkey, ih, List.lookup_cons, beq_false_of_ne h]
      · simp [hkey, ih, List.lookup_cons]
  simp [put, List.lookup_cons, beq_false_of_ne h, hfilter]

theorem mem_put {q : FileLocation} :
    q ∈ (s.put l contents).files.map (·.1) ↔ q = l ∨ q ∈ s.files.map (·.1) := by
  by_cases hq : q = l <;> simp [put, hq]

/-- A file may be made or replaced: whatever it is in is there. -/
structure Open (s : FileStore) (l : FileLocation) : Prop where
  kept : l ≠ sinkLocation
  way : ∀ p, p <+: l → p ≠ l → s.node p ≠ .missing

/-- A file that is made or replaced is there, and everything else is as it was. -/
theorem node_put (h : s.Open l) (contents : ByteArray) (l' : FileLocation) :
    (s.put l contents).node l' = if l' = l then .file contents else s.node l' := by
  split
  next heq =>
    subst heq
    exact node_of_file h.kept (by simp [put])
  next hne =>
    have habove : l' <+: l → s.Holds l' := fun hprefix =>
      Classical.not_not.mp (mt node_eq_missing_iff.mpr (h.way l' hprefix hne))
    refine node_congr (lookup_put contents hne) ⟨?_, ?_⟩
    · rintro ⟨q, hq, hprefix⟩
      rcases List.mem_append.mp hq with hq | hq
      · exact ⟨q, List.mem_append_left _ hq, hprefix⟩
      rcases mem_put.mp hq with rfl | hq
      · exact habove hprefix
      · exact ⟨q, List.mem_append_right _ hq, hprefix⟩
    · rintro ⟨q, hq, hprefix⟩
      rcases List.mem_append.mp hq with hq | hq
      · exact ⟨q, List.mem_append_left _ hq, hprefix⟩
      · exact ⟨q, List.mem_append_right _ (mem_put.mpr (.inr hq)), hprefix⟩

theorem put_put (s : FileStore) (l : FileLocation) (first second : ByteArray) :
    (s.put l first).put l second = s.put l second := by
  simp [put, List.filter_filter]

theorem patch_file {address : ℕ} (h : s.node l = .file contents) (hstart : address ≤ contents.size)
    (bytes : ByteArray) : s.patch l address bytes = s.put l (Cells.patch contents address bytes) := by
  unfold patch
  rw [h]
  dsimp only
  rw [Nat.sub_eq_zero_of_le hstart, Cells.filled, if_pos rfl, ByteArray.append_empty]

theorem patch_end (h : s.node l = .file contents) (bytes : ByteArray) :
    s.patch l contents.size bytes = s.put l (contents ++ bytes) := by
  rw [patch_file h (Nat.le_refl _), Cells.patch_end]

/-! ### Where paths lead -/

/-- A step of a path is made in a directory. -/
theorem walk_eq_ok {name : String} : s.walk l (name :: names) = .ok l' ↔
    s.node l = .directory ∧ name.utf8ByteSize ≤ longestName ∧
      s.walk (FileLocation.enter l name) names = .ok l' := by
  rw [walk]
  cases s.node l with
  | file _ | sink | missing => simp
  | directory =>
    dsimp only
    split
    next hlong => simp [Nat.not_le.mpr hlong]
    next hshort => simp [Nat.not_lt.mp hshort]

theorem prefix_of_enter {name : String} (hp : p <+: FileLocation.enter l name)
    (hne : p ≠ FileLocation.enter l name) : p <+: l := by
  unfold FileLocation.enter at hp hne
  by_cases hstay : name = "" ∨ name = "."
  · rwa [if_pos hstay] at hp
  rw [if_neg hstay] at hp hne
  by_cases hup : name = ".."
  · rw [if_pos hup] at hp
    exact hp.trans (List.dropLast_prefix l)
  · rw [if_neg hup] at hp hne
    exact (List.prefix_concat_iff.mp hp).resolve_left hne

/-- What a path goes through is there. -/
theorem way_of_walk (h : s.walk l names = .ok l') (hnames : names ≠ []) (hp : p <+: l') (hne : p ≠ l') :
    s.node p ≠ .missing := by
  induction names generalizing l with
  | nil => exact absurd rfl hnames
  | cons name rest ih =>
    obtain ⟨hnode, -, hrest⟩ := walk_eq_ok.mp h
    cases rest with
    | cons name' rest => exact ih hrest (List.cons_ne_nil _ _)
    | nil =>
      obtain rfl : FileLocation.enter l name = l' := Except.ok.inj hrest
      exact node_above (hnode ▸ nofun) (prefix_of_enter hp hne)

theorem names_ne_nil (h : FileStore.names path = .ok names) : names ≠ [] := by
  rintro rfl
  unfold FileStore.names at h
  split at h
  · cases h
  split at h
  · cases h
  split at h
  · cases h
  · exact List.splitOn_ne_nil _ _ (List.map_eq_nil_iff.mp (Except.ok.inj h))

theorem locate_eq_ok : s.locate path = .ok l ↔
    ∃ names, FileStore.names path = .ok names ∧ s.walk (s.start path) names = .ok l := by
  unfold locate
  cases FileStore.names path with
  | error e => simp [bind, Except.bind]
  | ok names => simp [bind, Except.bind]

/-- The same directories are in both stores. -/
structure SameTree (s t : FileStore) : Prop where
  start : s.workingDirectory = t.workingDirectory
  directories : ∀ l, s.node l = .directory ↔ t.node l = .directory

namespace SameTree

theorem refl (s : FileStore) : SameTree s s := ⟨rfl, fun _ => Iff.rfl⟩

theorem symm (h : SameTree s t) : SameTree t s := ⟨h.start.symm, fun l => (h.directories l).symm⟩

theorem trans (h : SameTree s t) (h' : SameTree t u) : SameTree s u :=
  ⟨h.start.trans h'.start, fun l => (h.directories l).trans (h'.directories l)⟩

theorem walk (h : SameTree s t) (hwalk : s.walk l names = .ok l') : t.walk l names = .ok l' := by
  induction names generalizing l with
  | nil => exact hwalk
  | cons name rest ih =>
    obtain ⟨hnode, hshort, hrest⟩ := walk_eq_ok.mp hwalk
    exact walk_eq_ok.mpr ⟨(h.directories l).mp hnode, hshort, ih hrest⟩

theorem start_eq (h : SameTree s t) (path : String) : s.start path = t.start path := by
  unfold FileStore.start
  rw [h.start]

theorem locate (h : SameTree s t) (hpath : s.locate path = .ok l) : t.locate path = .ok l := by
  obtain ⟨names, hnames, hwalk⟩ := locate_eq_ok.mp hpath
  exact locate_eq_ok.mpr ⟨names, hnames, h.start_eq path ▸ h.walk hwalk⟩

end SameTree

/-- A path for a file that may be missing leads where any path leads, and in any store with the same
directories. -/
theorem locateNew_eq_ok (h : s.locateNew path = .ok l) :
    s.locate path = .ok l ∧ ∀ {t}, SameTree s t → t.locateNew path = .ok l := by
  unfold locateNew at h ⊢
  -- only the directories above the last name matter to it, and a write adds and removes none
  cases hnames : FileStore.names path with
  | error e =>
    rw [hnames] at h
    cases h
  | ok names =>
    rw [hnames] at h
    simp only [bind, Except.bind] at h ⊢
    split at h
    next last above _ _ =>
      cases hwalk : s.walk (s.start path) (above.reverse ++ ["."]) with
      | error e =>
        rw [hwalk] at h
        cases h
      | ok q =>
        rw [hwalk] at h
        change (if last = "." ∨ last = ".." then s.locate path else .error .isDirectory) = _ at h
        split at h
        next hdots =>
          refine ⟨h, fun ht => ?_⟩
          rw [← ht.start_eq, ht.walk hwalk]
          change (if last = "." ∨ last = ".." then _ else _) = _
          rw [if_pos hdots]
          exact ht.locate h
        next => cases h
    next => exact ⟨h, fun ht => ht.locate h⟩

/-- Where a path leads, a file may be made, unless something stays there. -/
theorem open_of_locate (h : s.locate path = .ok l) (hsink : l ≠ sinkLocation) : s.Open l := by
  obtain ⟨names, hnames, hwalk⟩ := locate_eq_ok.mp h
  exact ⟨hsink, fun p hp hne => way_of_walk hwalk (names_ne_nil hnames) hp hne⟩

theorem open_of_file (h : s.node l = .file contents) : s.Open l := by
  refine ⟨?_, fun p hp _ => node_above (h ▸ nofun) hp⟩
  rintro rfl
  cases h.symm.trans node_sink

/-- Making or replacing a file moves no directory. -/
theorem sameTree_put (h : s.Open l) (hl : s.node l ≠ .directory) (contents : ByteArray) :
    SameTree s (s.put l contents) := by
  refine ⟨rfl, fun l' => ?_⟩
  rw [node_put h]
  split
  next heq => simp [heq, hl]
  next => exact Iff.rfl

/-! ### One file more -/

/-- The store `s` holds what the store `t` holds, and a file of its own besides. -/
structure Adds (s : FileStore) (l : FileLocation) (contents : ByteArray) (t : FileStore) : Prop where
  start : s.workingDirectory = t.workingDirectory
  file : s.node l = .file contents
  missing : t.node l = .missing
  others : ∀ l', l' ≠ l → s.node l' = t.node l'

theorem adds_put (h : s.Open l) (hmissing : s.node l = .missing) (contents : ByteArray) :
    (s.put l contents).Adds l contents s where
  start := rfl
  file := by rw [node_put h, if_pos rfl]
  missing := hmissing
  others l' hne := by rw [node_put h, if_neg hne]

namespace Adds

variable {bytes : ByteArray} {address : ℕ}

theorem tree (h : s.Adds l contents t) : SameTree s t := by
  refine ⟨h.start, fun l' => ?_⟩
  by_cases hl : l' = l
  · rw [hl, h.file, h.missing]
    exact ⟨nofun, nofun⟩
  · rw [h.others l' hl]

theorem put (h : s.Adds l contents t) (bytes : ByteArray) : (s.put l bytes).Adds l bytes t where
  start := h.start
  file := by rw [node_put (open_of_file h.file), if_pos rfl]
  missing := h.missing
  others l' hne := by rw [node_put (open_of_file h.file), if_neg hne, h.others l' hne]

theorem putOther (h : s.Adds l contents t) (hne : l' ≠ l) (hopen : t.Open l') (bytes : ByteArray) :
    (s.put l' bytes).Adds l contents (t.put l' bytes) := by
  have hopen' : s.Open l' := by
    refine ⟨hopen.kept, fun p hp hpne => ?_⟩
    by_cases hpl : p = l
    · rw [hpl, h.file]
      nofun
    · rw [h.others p hpl]
      exact hopen.way p hp hpne
  refine ⟨h.start, ?_, ?_, fun q hq => ?_⟩
  · rw [node_put hopen', if_neg hne.symm, h.file]
  · rw [node_put hopen, if_neg hne.symm, h.missing]
  · rw [node_put hopen', node_put hopen, h.others q hq]

theorem patch (h : s.Adds l contents t) (hfits : address ≤ contents.size) :
    (s.patch l address bytes).Adds l (Cells.patch contents address bytes) t := by
  rw [patch_file h.file hfits]
  exact h.put _

theorem read (h : s.Adds l contents t) (hpath : t.locate path ≠ .ok l) :
    (s.read path).toOption = (t.read path).toOption := by
  unfold FileStore.read
  cases ht : t.locate path with
  | ok l' =>
    have hne : l' ≠ l := fun heq => hpath (heq ▸ ht)
    rw [h.tree.symm.locate ht]
    simp only [bind, Except.bind]
    rw [h.others l' hne]
  | error e =>
    cases hs : s.locate path with
    | ok l' =>
      rw [h.tree.locate hs] at ht
      cases ht
    | error e' => rfl

theorem write (h : s.Adds l contents t) (hpath : t.locate path ≠ .ok l) (bytes : ByteArray) :
    (∃ e e', s.write path bytes = .error e ∧ t.write path bytes = .error e') ∨
      ∃ s' t', s.write path bytes = .ok s' ∧ t.write path bytes = .ok t' ∧ s'.Adds l contents t' ∧
        SameTree t t' := by
  unfold FileStore.write
  cases ht : t.locateNew path with
  | error e =>
    cases hs : s.locateNew path with
    | ok l' =>
      rw [(locateNew_eq_ok hs).2 h.tree] at ht
      cases ht
    | error e' => exact .inl ⟨e', e, rfl, rfl⟩
  | ok l' =>
    obtain ⟨hlocate, hsame⟩ := locateNew_eq_ok ht
    have hne : l' ≠ l := fun heq => hpath (heq ▸ hlocate)
    -- the two stores differ in one file, which a path that leads elsewhere does not pass through
    rw [hsame h.tree.symm]
    simp only [bind, Except.bind]
    rw [h.others l' hne]
    have made (hsink : l' ≠ sinkLocation) (hl : t.node l' ≠ .directory) :
        (s.put l' bytes).Adds l contents (t.put l' bytes) ∧ SameTree t (t.put l' bytes) :=
      ⟨h.putOther hne (open_of_locate hlocate hsink) bytes,
        sameTree_put (open_of_locate hlocate hsink) hl bytes⟩
    cases hnode : t.node l' with
    | directory => exact .inl ⟨_, _, rfl, rfl⟩
    | sink => exact .inr ⟨s, t, rfl, rfl, h, .refl t⟩
    | file _ | missing =>
      refine .inr ⟨_, _, rfl, rfl, made ?_ (hnode ▸ nofun)⟩
      rintro rfl
      cases hnode.symm.trans node_sink

end Adds

end RemoteUpdate.FileStore
