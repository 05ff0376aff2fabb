import RemoteUpdate.Proofs.Mailbox.Conduct
import RemoteUpdate.Proofs.Mailbox.Ring
import RemoteUpdate.Sdm.Registers

/-!
# Streams of responses

The words of an endless sequence of responses, and a device manager that sends them. It takes no notice of
commands, and what it does before each access of the host has been planned: it publishes the next word if
there is room for it, or rings. Such a device manager can be as slow as it likes between any two words.
-/

namespace RemoteUpdate

/-! ### Words of a stream -/

namespace Response

def first (stream : Nat → Response) (count : Nat) : List Response :=
  (List.range count).map stream

def word (stream : Nat → Response) (i : Nat) : UInt32 :=
  (wire (first stream (i + 1))).getD i 0

variable {stream : Nat → Response} {i n k : Nat}

@[simp] theorem length_first : (first stream n).length = n := by
  rw [first, List.length_map, List.length_range]

theorem le_length_first (stream : Nat → Response) (n : Nat) : n ≤ (wire (first stream n)).length := by
  have hlength := length_le_wire (first stream n)
  rwa [length_first] at hlength

theorem first_prefix (h : n ≤ k) : first stream n <+: first stream k := by
  have htake : first stream n = (first stream k).take n := by
    rw [first, first, ← List.map_take, List.take_range, Nat.min_eq_left h]
  rw [htake]
  exact List.take_prefix _ _

theorem wire_first_mono (stream : Nat → Response) (h : n ≤ k) :
    (wire (first stream n)).length ≤ (wire (first stream k)).length := by
  obtain ⟨later, hlater⟩ : first stream n <+: first stream k := first_prefix h
  rw [← hlater, wire_append, List.length_append]
  exact Nat.le_add_right _ _

theorem getElem?_wire (h : i < (wire (first stream n)).length) :
    (wire (first stream n))[i]? = some (word stream i) := by
  have hlt : i < (wire (first stream (i + 1))).length := le_length_first stream (i + 1)
  have hword : (wire (first stream (i + 1)))[i]? = some (word stream i) := by
    rw [word, List.getD_eq_getElem?_getD, List.getElem?_eq_getElem hlt, Option.getD_some]
  -- the words of the shorter sequence are the first of the longer one
  rcases Nat.le_total n (i + 1) with hle | hle
  · obtain ⟨later, hlater⟩ : first stream n <+: first stream (i + 1) := first_prefix hle
    rw [← hlater, wire_append, List.getElem?_append_left h] at hword
    exact hword
  · obtain ⟨later, hlater⟩ : first stream (i + 1) <+: first stream n := first_prefix hle
    rw [← hlater, wire_append, List.getElem?_append_left hlt]
    exact hword

theorem map_word (h : k ≤ (wire (first stream n)).length) :
    (List.range k).map (word stream) = (wire (first stream n)).take k := by
  apply List.ext_getElem?
  intro i
  by_cases hi : i < k
  · rw [List.getElem?_map, List.getElem?_range hi, List.getElem?_take_of_lt hi,
      getElem?_wire (hi.trans_le h)]
    rfl
  · rw [List.getElem?_eq_none (by simpa using hi), List.getElem?_eq_none (by simp; omega)]

/-- If the first words of a stream are those of whole responses, they end with a response. -/
theorem boundary {rs : List Response} (h : wire rs = (List.range k).map (word stream)) :
    k = (wire (first stream rs.length)).length := by
  have hprefix : rs <+: first stream k := by
    apply wire_prefix
    rw [h, map_word (le_length_first stream k)]
    exact List.take_prefix _ _
  have hle : rs.length ≤ k := by
    have hlength := hprefix.length_le
    rwa [length_first] at hlength
  have hrs : rs = first stream rs.length := by
    rw [List.prefix_iff_eq_take.mp hprefix, first, ← List.map_take, List.take_range, first]
    simp [hle]
  rw [← hrs, h, List.length_map, List.length_range]

end Response

/-! ### A device manager that streams -/

/-- What the device manager does of its own accord. -/
inductive Chore where
  /-- The next word is published, if there is room for it. -/
  | publish
  /-- The doorbell of the host is rung. -/
  | announce

/-- A device manager that streams responses, with the usual registers. -/
structure Streamer where
  stream : Nat → Response
  /-- How many words have been published. -/
  published : Nat := 0
  /-- How many words the host has taken. -/
  taken : Nat := 0
  /-- The doorbell of the host is raised. -/
  raised : Bool := false
  /-- Words have been published since the doorbell was rung last. -/
  unannounced : Bool := false
  /-- What is done before the next accesses. -/
  plan : List (List Chore) := []

namespace Streamer

/-- The response ring. -/
def ring : Ring := ⟨({} : RegisterMap).responseSlots⟩

def after (s : Streamer) : Chore → Streamer
  | .publish =>
    if 0 < ring.free (ring.wrap s.published) (ring.wrap s.taken) then
      { s with published := s.published + 1, unannounced := true }
    else s
  | .announce => { s with raised := true, unannounced := false }

/-- The device manager after what has been planned for the next access. -/
def stirred (s : Streamer) : Streamer :=
  (s.plan.headD []).foldl after { s with plan := s.plan.tail }

/-- The value of the register at an offset. A slot holds the next word that belongs there. -/
def register (s : Streamer) (offset : UInt32) : UInt32 :=
  if offset = ({} : RegisterMap).responseIn then .ofNat (ring.wrap s.published)
  else if offset = ({} : RegisterMap).responseOut then .ofNat (ring.wrap s.taken)
  else if offset = ({} : RegisterMap).doorbellFromSdm then if s.raised then 1 else 0
  else
    match EmulatedSdm.slotIndex? 0xc0 0x100 offset with
    | some i => Response.word s.stream (s.taken + ring.pending i s.taken)
    | none => 0

/-- The device manager after the host has written a register. -/
def written (s : Streamer) (offset value : UInt32) : Streamer :=
  if offset = ({} : RegisterMap).responseOut then
    { s with taken := s.taken + ring.pending value.toNat s.taken }
  else if offset = ({} : RegisterMap).doorbellFromSdm then { s with raised := value &&& 1 != 0 }
  else s

end Streamer

instance : RegisterBlock Streamer where
  read offset := do
    modify Streamer.stirred
    return (← get).register offset
  write offset value := do
    modify Streamer.stirred
    modify (Streamer.written · offset value)
  delay _ := modify Streamer.stirred

namespace Streamer

variable {s t : Streamer}

theorem serves_read (s : Streamer) (offset : UInt32) :
    Serves (.read offset (s.stirred.register offset)) s s.stirred :=
  (Returns.modify _ s).bind <| (Returns.get _).bind (.pure _ _)

theorem serves_write (s : Streamer) (offset value : UInt32) :
    Serves (.write offset value) s (s.stirred.written offset value) :=
  (Returns.modify _ s).bind (.modify _ _)

theorem serves_delay (s : Streamer) (micros : Nat) : Serves (.delay micros) s s.stirred :=
  .modify _ s

theorem after_spec (s : Streamer) (chore : Chore) : (s.after chore).stream = s.stream ∧
    (s.after chore).taken = s.taken ∧ s.published ≤ (s.after chore).published := by
  cases chore with
  | publish =>
    by_cases hroom : 0 < ring.free (ring.wrap s.published) (ring.wrap s.taken)
    · rw [after, if_pos hroom]
      exact ⟨rfl, rfl, Nat.le_succ _⟩
    · rw [after, if_neg hroom]
      exact ⟨rfl, rfl, le_rfl⟩
  | announce => exact ⟨rfl, rfl, le_rfl⟩

theorem foldl_after (chores : List Chore) (s : Streamer) :
    (chores.foldl after s).stream = s.stream ∧ (chores.foldl after s).taken = s.taken ∧
      s.published ≤ (chores.foldl after s).published := by
  induction chores generalizing s with
  | nil => exact ⟨rfl, rfl, le_rfl⟩
  | cons chore chores ih =>
    obtain ⟨hstream, htaken, hpublished⟩ := ih (s.after chore)
    obtain ⟨gstream, gtaken, gpublished⟩ := after_spec s chore
    exact ⟨hstream.trans gstream, htaken.trans gtaken, gpublished.trans hpublished⟩

theorem stirred_spec (s : Streamer) : s.stirred.stream = s.stream ∧ s.stirred.taken = s.taken ∧
    s.published ≤ s.stirred.published :=
  foldl_after _ { s with plan := s.plan.tail }

theorem stream_written (s : Streamer) (offset value : UInt32) :
    (s.written offset value).stream = s.stream := by
  unfold written
  split
  · rfl
  · split <;> rfl

/-- The device manager sends one stream, whatever the host does. -/
theorem responsive (stream : Nat → Response) : Responsive fun s : Streamer => s.stream = stream where
  read offset {s} hs := ⟨_, _, s.serves_read offset, (stirred_spec s).1.trans hs⟩
  write offset value {s} hs :=
    ⟨_, s.serves_write offset value, (stream_written _ _ _).trans ((stirred_spec s).1.trans hs)⟩
  delay micros {s} hs := ⟨_, s.serves_delay micros, (stirred_spec s).1.trans hs⟩

theorem wrap_cursor (i : Nat) : ring.wrap (UInt32.ofNat (ring.wrap i)).toNat = ring.wrap i := by
  have hlt : ring.wrap i < 16 := Ring.wrap_lt (by decide) i
  rw [UInt32.toNat_ofNat', Nat.mod_eq_of_lt (by omega)]
  exact Ring.wrap_of_lt hlt

end Streamer

end RemoteUpdate
