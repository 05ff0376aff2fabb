import RemoteUpdate.Proofs.Mailbox.Delivery

/-!
# The device manager at work

Whatever the device manager does between two accesses of the host, it takes words from the front of the
command ring and adds words to the end of its responses. `Stirs` says so of one piece of work: publishing,
consuming, a tick, a doorbell. Nothing is lost on the way: the words received and those still in the ring are
the same words before and after, and what has come out are the responses to the commands executed.
-/

namespace RemoteUpdate

namespace Received

def words (g : Received) : List UInt32 :=
  g.complete.flatMap LoggedCommand.words ++ (g.part.map LoggedCommand.words).getD []

theorem words_next (g : Received) (word : UInt32) : (g.next word).words = g.words ++ [word] := by
  have hextended : (extended word g.part).words = (g.part.map LoggedCommand.words).getD [] ++ [word] := by
    cases g.part <;> rfl
  unfold next words
  simp only
  split
  · rw [Option.map_some, Option.getD_some, hextended, List.append_assoc]
  · rw [Option.map_none, Option.getD_none, List.append_nil, List.flatMap_append, List.flatMap_singleton,
      hextended, List.append_assoc]

theorem words_all (g : Received) (words : List UInt32) : (words.foldl next g).words = g.words ++ words := by
  induction words generalizing g with
  | nil => exact (List.append_nil _).symm
  | cons word words ih => rw [List.foldl_cons, ih, words_next, List.append_assoc, List.singleton_append]

end Received

namespace EmulatedSdm

variable {s t u : EmulatedSdm}

def executedSince (s t : EmulatedSdm) : List LoggedCommand :=
  t.log.toList.drop s.log.size

/-- From `s` to `t` the device manager has done a piece of work of its own. -/
structure Stirs (s t : EmulatedSdm) : Prop where
  sound : t.Sound
  cin : t.cin = s.cin
  rout : t.rout = s.rout
  urgent : t.urgent = s.urgent
  commandCells : t.commandCells = s.commandCells
  /-- Words are taken from the front of the command ring. -/
  consumes : t.received.words ++ t.commandWords = s.received.words ++ s.commandWords
  /-- Responses are added at the end. -/
  responds : t.queue = s.queue ++ Response.wire (s.drawn (executedSince s t))
  /-- There is no less room in the command ring. -/
  room : 0 < s.commandRing.free s.cin s.cout → 0 < t.commandRing.free t.cin t.cout
  /-- What is in the response ring stays there. -/
  pending : s.rin ≠ s.rout → t.rin ≠ t.rout

theorem executedSince_eq {cs : List LoggedCommand} (h : t.log.toList = s.log.toList ++ cs) :
    executedSince s t = cs := by
  rw [executedSince, h, ← Array.length_toList, List.drop_left]

theorem executedSince_same (h : t.log = s.log) : executedSince s t = [] :=
  executedSince_eq (by rw [h, List.append_nil])

theorem Stirs.trans (h : Stirs s t) (h' : Stirs t u) (hlog : u.log = t.log) : Stirs s u where
  sound := h'.sound
  cin := h'.cin.trans h.cin
  rout := h'.rout.trans h.rout
  urgent := h'.urgent.trans h.urgent
  commandCells := h'.commandCells.trans h.commandCells
  consumes := h'.consumes.trans h.consumes
  responds := by
    have hsince : executedSince s u = executedSince s t := by rw [executedSince, hlog, executedSince]
    rw [h'.responds, executedSince_same hlog, hsince, ← h.responds]
    exact List.append_nil _
  room := h'.room ∘ h.room
  pending := h'.pending ∘ h.pending

/-! ### Work that moves no word -/

/-- The rings, and what has come out of one and is to go into the other. -/
def flow (s : EmulatedSdm) : EmulatedSdm :=
  { blank with
    map := s.map
    cin := s.cin
    rout := s.rout
    urgent := s.urgent
    cout := s.cout
    rin := s.rin
    commandCells := s.commandCells
    responseCells := s.responseCells
    partialCommand := s.partialCommand
    outbox := s.outbox
    log := s.log }

theorem congr_flow {α : Type} (f : EmulatedSdm → α) (h : t.flow = s.flow) : f t.flow = f s.flow :=
  congrArg f h

theorem stirs_of_flow (hs : s.Sound) (h : t.flow = s.flow) : Stirs s t where
  sound := by
    have hflow : s.flow.Sound :=
      ⟨hs.map, hs.cin, hs.cout, hs.rin, hs.rout, hs.commandCells, hs.responseCells⟩
    rw [← h] at hflow
    exact ⟨hflow.map, hflow.cin, hflow.cout, hflow.rin, hflow.rout, hflow.commandCells,
      hflow.responseCells⟩
  cin := congr_flow EmulatedSdm.cin h
  rout := congr_flow EmulatedSdm.rout h
  urgent := congr_flow EmulatedSdm.urgent h
  commandCells := congr_flow EmulatedSdm.commandCells h
  consumes := congr_flow (fun u => u.received.words ++ u.commandWords) h
  responds := by
    have hlog : t.log = s.log := congr_flow EmulatedSdm.log h
    rw [executedSince_same hlog]
    exact (congr_flow queue h).trans (List.append_nil _).symm
  room := (congr_flow (fun u => 0 < u.commandRing.free u.cin u.cout) h).mpr
  pending := (congr_flow (fun u => u.rin ≠ u.rout) h).mpr

/-- Work that begins with such a step and goes on from there. -/
theorem Stirs.after_flow (h : Stirs t u) (hflow : t.flow = s.flow) (hbehind : t = s.behind t []) :
    Stirs s u := by
  have hlog : t.log = s.log := congr_flow EmulatedSdm.log hflow
  have hdrawn : t.drawn = s.drawn := by
    rw [hbehind]
    exact funext (drawn_behind s t [])
  have hsince : executedSince s u = executedSince t u := by rw [executedSince, executedSince, hlog]
  constructor
  · exact h.sound
  · exact h.cin.trans (congr_flow EmulatedSdm.cin hflow)
  · exact h.rout.trans (congr_flow EmulatedSdm.rout hflow)
  · exact h.urgent.trans (congr_flow EmulatedSdm.urgent hflow)
  · exact h.commandCells.trans (congr_flow EmulatedSdm.commandCells hflow)
  · exact h.consumes.trans (congr_flow (fun u => u.received.words ++ u.commandWords) hflow)
  · rw [h.responds, hdrawn, hsince]
    exact congrArg (· ++ _) (congr_flow queue hflow)
  · exact h.room ∘ (congr_flow (fun u => 0 < u.commandRing.free u.cin u.cout) hflow).mpr
  · exact h.pending ∘ (congr_flow (fun u => u.rin ≠ u.rout) hflow).mpr

/-! ### Publishing and consuming -/

theorem stirs_published (hs : s.Sound) : Stirs s s.published := by
  obtain ⟨hsound, hpublished, hcore, hqueue, hrout⟩ := published_spec hs
  have hlog : s.published.log = s.log := congr_core EmulatedSdm.log hcore
  constructor
  · exact hsound
  · exact congr_core EmulatedSdm.cin hcore
  · exact hrout
  · exact congr_core EmulatedSdm.urgent hcore
  · exact congr_core EmulatedSdm.commandCells hcore
  · exact congr_core (fun u => u.received.words ++ u.commandWords) hcore
  · rw [executedSince_same hlog, hqueue]
    exact (List.append_nil _).symm
  · exact (congr_core (fun u => 0 < u.commandRing.free u.cin u.cout) hcore).mpr
  · intro hpending
    apply hpublished.pending hsound
    rw [hqueue]
    intro hempty
    exact hpending (hs.responseWords_eq_nil.mp (List.append_eq_nil_iff.mp hempty).1)

/-- The device manager after it has taken so many words out of the command ring. -/
def drained (s : EmulatedSdm) (count : Nat) : EmulatedSdm :=
  { (s.commandRing.words s.commandCells s.cout count).foldl absorb s with
    cout := s.commandRing.wrap (s.cout + count) }

theorem drained_eq (s : EmulatedSdm) (count : Nat) : s.drained count =
    ((s.commandRing.words s.commandCells s.cout count).foldl absorb s).behind
      { s with cout := s.commandRing.wrap (s.cout + count) } [] := by
  rw [drained, absorbAll_eq]
  rfl

theorem drained_pending (hs : s.Sound) : s.drained (s.commandRing.pending s.cin s.cout) = s.emptied := by
  rw [drained, Ring.wrap_add_pending hs.cin hs.cout]
  rfl

theorem stirs_drained (hs : s.Sound) {count : Nat} (h : count ≤ s.commandRing.pending s.cin s.cout) :
    Stirs s (s.drained count) := by
  have hmail := drained_eq s count
  have hcout : s.commandRing.wrap (s.cout + count) < s.commandRing.capacity :=
    Ring.wrap_lt (by have := hs.cout; omega) _
  have hsplit : s.commandWords = s.commandRing.words s.commandCells s.cout count ++
      s.commandRing.contents s.commandCells s.cin (s.commandRing.wrap (s.cout + count)) :=
    Ring.contents_split hs.cin hs.cout h
  have hwords : (s.drained count).commandWords =
      s.commandRing.contents s.commandCells s.cin (s.commandRing.wrap (s.cout + count)) := by
    rw [hmail]
    rfl
  have hreached := absorbAll_reached s ⟨[], s.partialCommand⟩
    (s.commandRing.words s.commandCells s.cout count)
  rw [reached_part] at hreached
  constructor
  · rw [hmail]
    exact ⟨hs.map, hs.cin, hcout, hs.rin, hs.rout, hs.commandCells, hs.responseCells⟩
  · rw [hmail]
    rfl
  · rw [hmail]
    rfl
  · rw [hmail]
    rfl
  · rw [hmail]
    rfl
  · have hreceived : (s.drained count).received =
        (s.commandRing.words s.commandCells s.cout count).foldl .next s.received := received_absorbAll s _
    rw [hreceived, Received.words_all, hwords, List.append_assoc, ← hsplit]
  · -- the responses are those to the commands that have become complete
    have hlog : (s.drained count).log.toList = s.log.toList ++
        ((s.commandRing.words s.commandCells s.cout count).foldl Received.next
          ⟨[], s.partialCommand⟩).complete := by
      show ((s.commandRing.words s.commandCells s.cout count).foldl absorb s).log.toList = _
      rw [hreached]
      exact log_after s _
    have hring : (s.drained count).responseWords = s.responseWords := by
      rw [hmail]
      rfl
    have houtbox : (s.drained count).outbox = s.outbox ++ Response.wire (s.drawn
        ((s.commandRing.words s.commandCells s.cout count).foldl Received.next
          ⟨[], s.partialCommand⟩).complete) := by
      show ((s.commandRing.words s.commandCells s.cout count).foldl absorb s).outbox = _
      rw [hreached]
      exact outbox_after s _
    rw [executedSince_eq hlog, queue, hring, houtbox, queue, List.append_assoc]
  · intro hfree
    have hlength := congrArg List.length hsplit
    simp only [commandWords, List.length_append, Ring.length_words, Ring.length_contents] at hlength
    rw [hmail]
    show 0 < s.commandRing.free s.cin (s.commandRing.wrap (s.cout + count))
    unfold Ring.free at hfree ⊢
    omega
  · rw [hmail]
    exact id

theorem stirs_consumed (hs : s.Sound) : Stirs s s.consumed := by
  have hemptied : Stirs s s.emptied := drained_pending hs ▸ stirs_drained hs le_rfl
  have hlog : s.consumed.log = s.emptied.log :=
    congr_core (s := s.emptied) EmulatedSdm.log (published_spec hs.emptied).2.2.1
  exact hemptied.trans (stirs_published hs.emptied) hlog

/-! ### Time and the doorbell -/

theorem stirs_countdown (hs : s.Sound) (countdown : Option Nat) : Stirs s { s with countdown } :=
  stirs_of_flow hs rfl

theorem stirs_ticked (hs : s.Sound) : Stirs s s.ticked := by
  have hsound : ∀ countdown, Sound { s with countdown } := fun countdown => (stirs_countdown hs countdown).sound
  unfold ticked
  split
  · exact (stirs_consumed (hsound none)).after_flow rfl rfl
  · exact (stirs_consumed (hsound none)).after_flow rfl rfl
  next n _ => exact (stirs_published (hsound (some (n + 1)))).after_flow rfl rfl
  · exact stirs_published hs

theorem stirs_hurried (hs : s.Sound) : Stirs s s.hurried := by
  unfold hurried
  split
  · exact stirs_consumed hs
  · split
    · exact stirs_countdown hs _
    · exact stirs_of_flow hs rfl

theorem stirs_rung (hs : s.Sound) : Stirs s s.rung := by
  unfold rung
  split
  · have hflow : Stirs s { s with overflowDoorbells := s.overflowDoorbells + 1 } := stirs_of_flow hs rfl
    exact (stirs_hurried hflow.sound).after_flow rfl rfl
  · exact stirs_hurried hs

end EmulatedSdm

end RemoteUpdate
