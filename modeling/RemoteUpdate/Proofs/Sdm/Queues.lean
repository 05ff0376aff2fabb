import RemoteUpdate.Proofs.Mailbox.Ring
import RemoteUpdate.Proofs.Sdm.Commands
import RemoteUpdate.Sdm.Registers

/-!
# The queues of the device manager

The words between the cursors of the two rings as lists, and what becomes of them when the device
manager publishes responses and consumes commands. `caughtUp` is the device manager as it will be once it
has seen every word in the command ring: neither publishing nor consuming changes it.
-/

namespace RemoteUpdate.EmulatedSdm

/-- The registers are where they usually are, and the cursors point into rings of the usual size. -/
structure Sound (s : EmulatedSdm) : Prop where
  map : s.map = {}
  cin : s.cin < s.commandRing.capacity
  cout : s.cout < s.commandRing.capacity
  rin : s.rin < s.responseRing.capacity
  rout : s.rout < s.responseRing.capacity
  commandCells : s.commandCells.size = s.commandRing.capacity
  responseCells : s.responseCells.size = s.responseRing.capacity

/-- The cursors of the response ring point into it, and each of its slots has a cell. -/
structure Ringed (s : EmulatedSdm) : Prop where
  rin : s.rin < s.responseRing.capacity
  rout : s.rout < s.responseRing.capacity
  responseCells : s.responseCells.size = s.responseRing.capacity

def commandWords (s : EmulatedSdm) : List UInt32 :=
  s.commandRing.contents s.commandCells s.cin s.cout

def responseWords (s : EmulatedSdm) : List UInt32 :=
  s.responseRing.contents s.responseCells s.rin s.rout

/-- The response words that the host has not taken, published or not. -/
def queue (s : EmulatedSdm) : List UInt32 :=
  s.responseWords ++ s.outbox

def room (s : EmulatedSdm) : Nat :=
  s.responseRing.free s.rin s.rout

/-- Nothing waits to be published for which there is room. -/
def Published (s : EmulatedSdm) : Prop :=
  s.outbox = [] ∨ s.room = 0

/-- The device manager without its side of the response ring. -/
def core (s : EmulatedSdm) : EmulatedSdm :=
  { s with rout := 0, rin := 0, responseCells := #[], outbox := [], doorbell := 0, lostDoorbells := none }

/-- The device manager once it has seen every word in the command ring, with all its responses in the
outbox of a mailbox that is otherwise fresh. -/
def caughtUp (s : EmulatedSdm) : EmulatedSdm :=
  s.commandWords.foldl absorb (s.behind blank s.responseWords)

variable {s t : EmulatedSdm}

theorem Sound.commandCapacity (h : s.Sound) : s.commandRing.capacity = 32 := by
  rw [commandRing, h.map]

theorem Sound.responseCapacity (h : s.Sound) : s.responseRing.capacity = 16 := by
  rw [responseRing, h.map]

theorem Sound.whenSlotted_command {α : Type} (h : s.Sound) (a : α) :
    s.commandRing.whenSlotted a = some a := by
  rw [Ring.whenSlotted, h.commandCapacity]
  rfl

theorem Sound.ringed (h : s.Sound) : s.Ringed :=
  ⟨h.rin, h.rout, h.responseCells⟩

theorem Ringed.whenSlotted {α : Type} (h : s.Ringed) (a : α) : s.responseRing.whenSlotted a = some a :=
  if_neg (by have := h.rin; omega)

theorem Sound.whenSlotted_response {α : Type} (h : s.Sound) (a : α) :
    s.responseRing.whenSlotted a = some a :=
  h.ringed.whenSlotted a

theorem congr_core {α : Type} (f : EmulatedSdm → α) (h : t.core = s.core) : f t.core = f s.core :=
  congrArg f h

/-- What becomes of its side of the response ring does not touch the rest of a device manager. -/
theorem Sound.of_core (hs : s.Sound) (hcore : t.core = s.core) (ht : t.Ringed) : t.Sound where
  map := (congr_core EmulatedSdm.map hcore).trans hs.map
  cin := (congr_core (fun u => u.cin < u.commandRing.capacity) hcore).mpr hs.cin
  cout := (congr_core (fun u => u.cout < u.commandRing.capacity) hcore).mpr hs.cout
  rin := ht.rin
  rout := ht.rout
  commandCells := (congr_core (fun u => u.commandCells.size = u.commandRing.capacity) hcore).mpr hs.commandCells
  responseCells := ht.responseCells

theorem commandWords_congr (h : t.core = s.core) : t.commandWords = s.commandWords :=
  congr_core commandWords h

theorem behind_responseWords (s : EmulatedSdm) :
    s.behind blank s.responseWords = s.core.behind blank s.queue := by
  simp [behind, dressed, queue, core]

theorem caughtUp_congr (h : t.core = s.core) (hq : t.queue = s.queue) : t.caughtUp = s.caughtUp := by
  rw [caughtUp, caughtUp, commandWords_congr h, behind_responseWords t, behind_responseWords s, h, hq]

/-! ### Publishing -/

theorem deliver_spec (hs : s.Ringed) (words : List UInt32) :
    (s.deliver words).Ringed ∧ (s.deliver words).Published ∧
      (s.deliver words).core = s.core ∧ (s.deliver words).queue = s.responseWords ++ words ∧
      (s.deliver words).rout = s.rout ∧ (s.deliver words).doorbell = s.doorbell ∧
      (s.deliver words).lostDoorbells = s.lostDoorbells := by
  -- delivering stops at the first word without room, and all that remain go to the backlog
  induction words generalizing s with
  | nil => exact ⟨⟨hs.rin, hs.rout, hs.responseCells⟩, .inl rfl, rfl, rfl, rfl, rfl, rfl⟩
  | cons word words ih =>
    unfold deliver
    split
    next hroom =>
      have hpush : EmulatedSdm.responseWords { s with
          responseCells := s.responseCells.setIfInBounds s.rin word
          rin := s.responseRing.next s.rin } = s.responseWords ++ [word] :=
        Ring.contents_push hs.rin hs.rout hs.responseCells hroom word
      have hringed : Ringed { s with
          responseCells := s.responseCells.setIfInBounds s.rin word
          rin := s.responseRing.next s.rin } :=
        ⟨Ring.next_lt (by have := hs.rin; omega) _, hs.rout,
          by rw [Array.size_setIfInBounds]; exact hs.responseCells⟩
      obtain ⟨h1, h2, h3, h4, h5⟩ := ih hringed
      refine ⟨h1, h2, h3, ?_, h5⟩
      rw [h4, hpush, List.append_assoc, List.singleton_append]
    next hroom =>
      refine ⟨⟨hs.rin, hs.rout, hs.responseCells⟩, .inr ?_, rfl, rfl, rfl, rfl, rfl⟩
      exact Nat.eq_zero_of_not_pos hroom

/-- The device manager after it has published what there is room for. -/
def published (s : EmulatedSdm) : EmulatedSdm :=
  if 0 < s.room && !s.outbox.isEmpty then (s.deliver s.outbox).raiseDoorbell else s.deliver s.outbox

theorem Ringed.returns_publish (hs : s.Ringed) : Returns publish s () s.published := by
  unfold publish
  refine (Returns.get s).bind ?_
  simp only
  rw [show s.responseRing.free s.rin s.rout = s.room from rfl, hs.whenSlotted]
  refine (Returns.orAbort s.room s).bind ?_
  unfold published
  split <;> exact .set _ _

theorem returns_publish (hs : s.Sound) : Returns publish s () s.published :=
  hs.ringed.returns_publish

theorem published_of_published (h : s.Published) : s.published = s := by
  obtain houtbox | hroom := h
  · have forget : ({ s with outbox := [] } : EmulatedSdm) = s := by rw [← houtbox]
    simp [published, houtbox, deliver, forget]
  · have keep : s.deliver s.outbox = s := by
      cases houtbox : s.outbox with
      | nil =>
        have forget : ({ s with outbox := [] } : EmulatedSdm) = s := by rw [← houtbox]
        simp [deliver, forget]
      | cons word rest =>
        have hfree : ¬ 0 < s.responseRing.free s.rin s.rout := Nat.not_lt.mpr (Nat.le_zero.mpr hroom)
        rw [deliver, if_neg hfree, ← houtbox]
    simp [published, hroom, keep]

theorem raiseDoorbell_spec (s : EmulatedSdm) : s.raiseDoorbell.core = s.core ∧
    s.raiseDoorbell.queue = s.queue ∧ s.raiseDoorbell.outbox = s.outbox ∧
    s.raiseDoorbell.room = s.room ∧ s.raiseDoorbell.rout = s.rout := by
  unfold raiseDoorbell
  split <;> exact ⟨rfl, rfl, rfl, rfl, rfl⟩

theorem Ringed.raiseDoorbell (hs : s.Ringed) : s.raiseDoorbell.Ringed := by
  unfold EmulatedSdm.raiseDoorbell
  split
  · exact hs
  all_goals exact ⟨hs.rin, hs.rout, hs.responseCells⟩

theorem Sound.raiseDoorbell (hs : s.Sound) : s.raiseDoorbell.Sound :=
  hs.of_core (raiseDoorbell_spec s).1 hs.ringed.raiseDoorbell

theorem Ringed.published (hs : s.Ringed) : s.published.Ringed ∧ s.published.Published ∧
    s.published.core = s.core ∧ s.published.queue = s.queue ∧ s.published.rout = s.rout := by
  obtain ⟨hringed, hpublished, hcore, hqueue, hrout, -, -⟩ := deliver_spec hs s.outbox
  obtain ⟨rcore, rqueue, routbox, rroom, rrout⟩ := raiseDoorbell_spec (s.deliver s.outbox)
  unfold EmulatedSdm.published
  split
  · refine ⟨hringed.raiseDoorbell, ?_, rcore.trans hcore, rqueue.trans hqueue, rrout.trans hrout⟩
    unfold Published at hpublished ⊢
    rw [routbox, rroom]
    exact hpublished
  · exact ⟨hringed, hpublished, hcore, hqueue, hrout⟩

theorem published_spec (hs : s.Sound) : s.published.Sound ∧ s.published.Published ∧
    s.published.core = s.core ∧ s.published.queue = s.queue ∧ s.published.rout = s.rout := by
  obtain ⟨hringed, hpublished, hcore, hrest⟩ := hs.ringed.published
  exact ⟨hs.of_core hcore hringed, hpublished, hcore, hrest⟩

theorem raiseDoorbell_eq (h : s.lostDoorbells = some 0) :
    s.raiseDoorbell = { s with doorbell := 1 } := by
  unfold raiseDoorbell
  split
  · simp_all
  · rfl
  · simp_all

/-- Publishing rings the doorbell, unless doorbells get lost. -/
theorem doorbell_published (hs : s.Sound) (h : ¬ s.Published) (hlost : s.lostDoorbells = some 0) :
    s.published.doorbell = 1 ∧ s.published.lostDoorbells = some 0 := by
  obtain ⟨-, -, -, -, -, -, lost⟩ := deliver_spec hs.ringed s.outbox
  unfold Published at h
  rw [not_or] at h
  have hpublish : (0 < s.room && !s.outbox.isEmpty) = true := by
    simp [Nat.pos_of_ne_zero h.2, h.1]
  rw [published, if_pos hpublish, raiseDoorbell_eq (lost.trans hlost)]
  exact ⟨rfl, lost.trans hlost⟩

/-! ### Consuming -/

theorem returns_consumeWord (s : EmulatedSdm) : Returns consumeWord s ()
    (absorb { s with cout := s.commandRing.next s.cout } (s.commandCells.getD s.cout 0)) := by
  let t := { s with cout := s.commandRing.next s.cout }
  have complete : ∀ c, c = extended (s.commandCells.getD s.cout 0) s.partialCommand →
      Returns (if c.arguments.length < c.header.length then set { t with partialCommand := some c }
        else do set { t with partialCommand := none }; execute c) s ()
        (absorb t (s.commandCells.getD s.cout 0)) := by
    rintro c rfl
    split
    next h =>
      rw [show absorb t _ = { t with partialCommand := some _ } from if_pos h]
      exact .set _ _
    next h =>
      rw [show absorb t _ = executed _ { t with partialCommand := none } from if_neg h]
      exact (Returns.set _ _).bind (returns_execute _ _)
  unfold consumeWord
  refine (Returns.get s).bind ?_
  refine complete _ ?_
  cases s.partialCommand <;> rfl

theorem absorbAll_cout (s : EmulatedSdm) (cout : Nat) (words : List UInt32) :
    words.foldl absorb { s with cout } = { words.foldl absorb s with cout } := by
  have h := absorbAll_behind s { s with cout } [] words
  have h' := absorbAll_eq s words
  rw [show ({ s with cout } : EmulatedSdm) = s.behind { s with cout } [] from rfl, h, h']
  rfl

theorem returns_consumeWords (hs : s.Sound) (count : Nat) : Returns (consumeWords count) s ()
    { (s.commandRing.words s.commandCells s.cout count).foldl absorb s with
      cout := s.commandRing.wrap (s.cout + count) } := by
  induction count generalizing s with
  | zero =>
    have stay : s.commandRing.wrap s.cout = s.cout := Ring.wrap_of_lt hs.cout
    rw [Nat.add_zero, stay]
    exact .pure () s
  | succ count ih =>
    have hnext : s.commandRing.next s.cout < s.commandRing.capacity :=
      Ring.next_lt (by have := hs.cout; omega) _
    let t := absorb { s with cout := s.commandRing.next s.cout } (s.commandCells.getD s.cout 0)
    have mailbox : t = t.behind { s with cout := s.commandRing.next s.cout } [] :=
      absorbAll_eq _ [_]
    have ht : t.Sound := by
      rw [mailbox]
      exact ⟨hs.map, hs.cin, hnext, hs.rin, hs.rout, hs.commandCells, hs.responseCells⟩
    have ring : t.commandRing = s.commandRing := by rw [mailbox]; rfl
    have cells : t.commandCells = s.commandCells := by rw [mailbox]; rfl
    have cout : t.cout = s.commandRing.next s.cout := by rw [mailbox]; rfl
    have h := ih ht
    rw [ring, cells, cout] at h
    have next_add : s.commandRing.wrap (s.commandRing.next s.cout + count) =
        s.commandRing.wrap (s.cout + (count + 1)) := by
      unfold Ring.next Ring.wrap
      rw [Nat.mod_add_mod]
      congr 1
      omega
    rw [next_add] at h
    have unroll : (s.commandRing.words s.commandCells s.cout (count + 1)).foldl absorb s =
        (s.commandRing.words s.commandCells (s.commandRing.next s.cout) count).foldl absorb
          (s.absorb (s.commandCells.getD s.cout 0)) := by
      rw [Ring.words_succ hs.cout, List.foldl_cons]
    have moved : t = { s.absorb (s.commandCells.getD s.cout 0) with
        cout := s.commandRing.next s.cout } := absorbAll_cout s _ [_]
    -- absorbing reads no cursor, so the two steps merge into one move of it
    have merged : ∀ (cout : Nat) (words : List UInt32), ({ words.foldl absorb t with cout } :
        EmulatedSdm) = { words.foldl absorb (s.absorb (s.commandCells.getD s.cout 0)) with cout } := by
      intro cout words
      rw [moved, absorbAll_cout]
    rw [merged] at h
    rw [unroll]
    exact (returns_consumeWord s).bind h

/-- The device manager after it has emptied the command ring, before it publishes. -/
def emptied (s : EmulatedSdm) : EmulatedSdm :=
  { s.commandWords.foldl absorb s with cout := s.cin }

/-- The device manager after it has consumed commands. -/
def consumed (s : EmulatedSdm) : EmulatedSdm :=
  s.emptied.published

theorem emptied_eq (s : EmulatedSdm) :
    s.emptied = (s.commandWords.foldl absorb s).behind { s with cout := s.cin } [] := by
  rw [emptied, absorbAll_eq]
  rfl

theorem Sound.emptied (hs : s.Sound) : s.emptied.Sound := by
  rw [emptied_eq]
  exact ⟨hs.map, hs.cin, hs.cin, hs.rin, hs.rout, hs.commandCells, hs.responseCells⟩

theorem Sound.commandWords_eq_nil (hs : s.Sound) : s.commandWords = [] ↔ s.cin = s.cout :=
  Ring.contents_eq_nil hs.cin hs.cout

theorem commandWords_emptied (hs : s.Sound) : s.emptied.commandWords = [] := by
  rw [hs.emptied.commandWords_eq_nil, emptied_eq]
  rfl

theorem caughtUp_emptied (hs : s.Sound) : s.emptied.caughtUp = s.caughtUp := by
  have ring : s.emptied.responseWords = s.responseWords := by rw [emptied_eq]; rfl
  rw [caughtUp, commandWords_emptied hs, List.foldl_nil, ring, caughtUp, absorbAll_behind]
  rfl

theorem returns_consume (hs : s.Sound) : Returns consume s () s.consumed := by
  have h := returns_consumeWords hs (s.commandRing.pending s.cin s.cout)
  rw [Ring.wrap_add_pending hs.cin hs.cout] at h
  unfold consume
  refine (Returns.get s).bind <| Returns.bind h ?_
  exact returns_publish hs.emptied

theorem caughtUp_of_empty (h : s.commandWords = []) : s.caughtUp = s.behind blank s.responseWords := by
  rw [caughtUp, h, List.foldl_nil]

theorem outbox_caughtUp_of_empty (h : s.commandWords = []) : s.caughtUp.outbox = s.queue := by
  rw [caughtUp_of_empty h]
  rfl

theorem outbox_caughtUp (s : EmulatedSdm) : ∃ rs, s.caughtUp.outbox = s.queue ++ Response.wire rs :=
  outbox_absorbAll (s.behind blank s.responseWords) s.commandWords

end RemoteUpdate.EmulatedSdm
