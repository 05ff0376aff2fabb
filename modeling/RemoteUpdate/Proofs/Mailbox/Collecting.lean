import RemoteUpdate.Proofs.Mailbox.Reading
import RemoteUpdate.Proofs.Mailbox.Sending

/-!
# Collecting responses

What the driver finds in the response ring. As long as responses are framed, every response is read from
its header to its last word, those that answer other commands are dropped whole, and the first one that
answers decides.
-/

namespace RemoteUpdate

namespace EmulatedSdm

variable {s t : EmulatedSdm} {words : List UInt32}

/-! ### Taking words -/

/-- From `s` to `t` the host took words out of the response ring. -/
structure Taken (words : List UInt32) (s t : EmulatedSdm) : Prop where
  sound : t.Sound
  published : t.Published
  core : t.core = s.core
  queue : s.queue = words ++ t.queue
  caughtUp : s.caughtUp = t.caughtUp.behind blank words
  keeps : s.Alert → t.Alert
  alert : s.lostDoorbells = some 0 → words ≠ [] → t.Alert

theorem behind_behind (s : EmulatedSdm) (words words' : List UInt32) :
    (s.behind blank words').behind blank words = s.behind blank (words ++ words') := by
  simp [behind, dressed]

theorem caughtUp_behind_nil (s : EmulatedSdm) : s.caughtUp.behind blank [] = s.caughtUp := by
  rw [caughtUp, ← absorbAll_behind, behind_behind, List.nil_append]

theorem taken_nil (hs : s.Sound) (hp : s.Published) : Taken [] s s :=
  ⟨hs, hp, rfl, rfl, (caughtUp_behind_nil s).symm, id, fun _ h => absurd rfl h⟩

theorem alert_popped (hs : s.Sound) (h : s.rin ≠ s.rout) (hlost : s.lostDoorbells = some 0) :
    s.popped.Alert := by
  refine alert_published hs.turned ⟨hlost, .inr ?_⟩
  have hnext := Ring.pending_next_consumer hs.rin hs.rout h
  have hle := Ring.pending_le_usable (r := s.responseRing) (by have := hs.rin; omega) s.rin s.rout
  show 0 < s.responseRing.usable - s.responseRing.pending s.rin (s.responseRing.next s.rout)
  omega

theorem Taken.cons (hs : s.Sound) (h : s.rin ≠ s.rout) (h' : Taken words s.popped t) :
    Taken (s.responseCells.getD s.rout 0 :: words) s t where
  sound := h'.sound
  published := h'.published
  core := h'.core.trans (popped_spec hs).2.2.1
  queue := by rw [queue_popped hs h, h'.queue, List.cons_append]
  caughtUp := by rw [caughtUp_popped hs h, h'.caughtUp, behind_behind, List.singleton_append]
  keeps ha := h'.keeps (alert_popped hs h ha.1)
  alert hlost _ := h'.keeps (alert_popped hs h hlost)

end EmulatedSdm

open EmulatedSdm

namespace Mailbox

variable {timing : Timing} {s t u : EmulatedSdm} {r : Response} {words : List UInt32}

/-! ### Accesses -/

theorem faces_host (timing : Timing) (hs : s.Sound) : Faces (host timing) s :=
  ⟨hs.map, hs.unshared, hs.ringed⟩

theorem returns_takeDoorbell (timing : Timing) (hs : s.Sound) :
    Returns (host timing).takeDoorbell s (decide s.Raised)
      (if s.Raised then { s with doorbell := 0 } else s) :=
  (yields_takeDoorbell relays_self (faces_host timing hs)).returns

theorem returns_responsePending (hs : s.Sound) :
    Returns ((host timing).responsePending s.rout) s (s.rin != s.rout) s :=
  (yields_responsePending relays_self (faces_host timing hs)).returns

theorem returns_responseCursor (hs : s.Sound) :
    Returns (host timing).responseCursor s s.rout s :=
  (yields_responseCursor relays_self (faces_host timing hs)).returns

theorem returns_readWord (timing : Timing) (hs : s.Sound) :
    Returns ((host timing).readWord s.rout) s (s.responseCells.getD s.rout 0, s.popped.rout)
      s.popped :=
  (yields_readWord relays_self (faces_host timing hs)).returns

theorem returns_waitWord (hs : s.Sound) (hp : 0 < timing.dataPolls) (h : s.rin ≠ s.rout) :
    Returns ((host timing).waitWord s.rout) s true s :=
  (yields_waitWord relays_self (faces_host timing hs) hp h).returns

theorem receive_word {word : UInt32} {taken : Nat} {rest : List UInt32} {room : Nat} (hs : s.Sound)
    (hpending : s.rin ≠ s.rout)
    (hread : Returns ((host timing).readWord s.rout) s (word, s.popped.rout) s.popped)
    (hrest : Returns (receive.go (host timing) (taken + room) s.popped.rout) s.popped rest u) :
    Returns (receive.go (host timing) (taken + 1 + room) s.rout) s (word :: rest) u := by
  rw [Nat.succ_add]
  unfold receive.go
  refine (returns_responsePending hs).bind ?_
  rw [if_pos (bne_iff_ne.mpr hpending)]
  exact hread.bind <| hrest.bind (.pure _ u)

/-- Words that are out are taken one by one, and it makes no difference whether the host waits for each of
them or takes as many as it finds. -/
theorem returns_words (timing : Timing) (hs : s.Sound) (hpublished : s.Published) (hp : 0 < timing.dataPolls)
    {later : List UInt32} (h : s.queue = words ++ later) :
    ∃ t, Taken words s t ∧
      Returns ((host timing).readData s.rout words.length) s (words, some t.rout) t ∧
      ∀ room rest u, Returns (receive.go (host timing) room t.rout) t rest u →
        Returns (receive.go (host timing) (words.length + room) s.rout) s (words ++ rest) u := by
  -- once a queue is published it stays so, hence no word is waited for
  induction words generalizing s with
  | nil =>
    refine ⟨s, taken_nil hs hpublished, .pure _ s, fun room rest u hrest => ?_⟩
    rw [List.length_nil, Nat.zero_add]
    exact hrest
  | cons word words ih =>
    have hpending : s.rin ≠ s.rout := hpublished.pending hs (by rw [h]; exact List.cons_ne_nil _ _)
    obtain ⟨hsound, hpublished', -, -⟩ := popped_spec hs
    have hqueue := queue_popped hs hpending
    rw [h, List.cons_append, List.cons.injEq] at hqueue
    obtain ⟨hword, hlater⟩ := hqueue
    have hone := returns_readWord timing hs
    rw [← hword] at hone
    obtain ⟨t, htaken, hread, hreceive⟩ := ih hsound hpublished' hlater.symm
    refine ⟨t, hword ▸ htaken.cons hs hpending, ?_, fun room rest u hrest =>
      receive_word hs hpending hone (hreceive room rest u hrest)⟩
    unfold readData
    refine (returns_waitWord hs hp hpending).bind ?_
    simp only [if_true]
    exact hone.bind <| hread.bind (.pure _ t)

/-! ### One look at the response ring -/

variable {opcode : UInt32} {room budget : Nat} {a : Attempt}

def missed : Attempt :=
  { result := .error .timeout }

/-- The attempt that ends with a response, with room for so many data words. -/
def answeredBy (r : Response) (room : Nat) : Attempt :=
  { result := resultOfCode r.header.code (r.data.take room).length, copied := r.data.take room }

/-- A response that is out is read from its header to its last word, or taken as it is. -/
theorem returns_response (hs : s.Sound) (hp : 0 < timing.dataPolls) (hpending : s.rin ≠ s.rout)
    {later : List UInt32} (h : s.queue = r.words ++ later) :
    ∃ t, Taken r.words s t ∧
      Returns ((host timing).readWord s.rout) s (r.header.word, s.popped.rout) s.popped ∧
      Returns ((host timing).readData s.popped.rout r.header.length) s.popped (r.data, some t.rout) t ∧
      ∀ room rest u, Returns (receive.go (host timing) room t.rout) t rest u →
        Returns (receive.go (host timing) (r.words.length + room) s.rout) s (r.words ++ rest) u := by
  obtain ⟨hsound, hpublished, -, -⟩ := popped_spec hs
  have hqueue := queue_popped hs hpending
  rw [h, Response.words, List.cons_append, List.cons.injEq] at hqueue
  obtain ⟨hword, hlater⟩ := hqueue
  obtain ⟨t, htaken, hdata, hreceive⟩ := returns_words timing hsound hpublished hp hlater.symm
  have hread := returns_readWord timing hs
  rw [← hword] at hread
  rw [r.whole] at hdata
  have hall := htaken.cons hs hpending
  rw [← hword] at hall
  exact ⟨t, hall, hread, hdata, fun room rest u hrest => receive_word hs hpending hread (hreceive room rest u hrest)⟩

section Read

variable (hread : Returns ((host timing).readWord s.rout) s (r.header.word, s.popped.rout) s.popped)
  (hdata : Returns ((host timing).readData s.popped.rout r.header.length) s.popped (r.data, some t.rout) t)
include hread hdata

theorem takeResponse_read (opcode : UInt32) (room : Nat) : Returns ((host timing).takeResponse opcode room s.rout) s
    (if r.Answers then .error (answeredBy r room) else .ok t.rout) t := by
  unfold takeResponse
  refine hread.bind <| hdata.bind ?_
  by_cases hr : r.Answers
  · have hanswers : r.header.answers hostClient hostTransaction = true := hr
    simp only [host, hanswers, hr, if_true]
    exact (returns_log timing _ t).bind (.pure _ t)
  · have hanswers : ¬ r.header.answers hostClient hostTransaction = true := hr
    simp only [host, hanswers, hr, if_false]
    exact (returns_log timing _ t).bind (.pure _ t)

end Read

theorem returns_takeResponse (opcode : UInt32) (room : Nat) (hs : s.Sound) (hp : 0 < timing.dataPolls) (hpending : s.rin ≠ s.rout)
    {later : List UInt32} (h : s.queue = r.words ++ later) : ∃ t, Taken r.words s t ∧
      Returns ((host timing).takeResponse opcode room s.rout) s
        (if r.Answers then .error (answeredBy r room) else .ok t.rout) t := by
  obtain ⟨t, htaken, hread, hdata, -⟩ := returns_response hs hp hpending h
  exact ⟨t, htaken, takeResponse_read hread hdata opcode room⟩

theorem returns_unread (timing : Timing) (hs : s.Sound) :
    Returns ((host timing).unread (some s.rout)) s
      (if s.rin = s.rout then none else some s.rout) s := by
  refine (returns_responsePending hs).bind ?_
  by_cases h : s.rin = s.rout
  · rw [if_pos h, h, bne_self_eq_false]
    exact .pure none s
  · rw [if_neg h, bne_iff_ne.mpr h]
    exact .pure (some s.rout) s

/-- The driver knows of no word to read. -/
def Waiting (s : EmulatedSdm) (reading : Option Nat) : Prop :=
  reading = none ∨ reading = some s.rout ∧ s.rin = s.rout

theorem Waiting.unread {reading : Option Nat} (hs : s.Sound) (h : Waiting s reading) :
    Returns ((host timing).unread reading) s none s := by
  rcases h with rfl | ⟨rfl, hempty⟩
  · exact .pure none s
  · have hunread := returns_unread timing hs
    rwa [if_pos hempty] at hunread

theorem collect_read (budget : Nat) (hs : s.Sound) (hpending : s.rin ≠ s.rout)
    (htake : Returns ((host timing).takeResponse opcode room s.rout) s (.error a) t) :
    Returns ((host timing).collect opcode room budget (some s.rout)) s a t := by
  have hunread := returns_unread timing hs
  rw [if_neg hpending] at hunread
  cases budget with
  | zero =>
    unfold collect
    exact hunread.bind <| htake.bind (.pure _ t)
  | succ budget =>
    unfold collect
    exact hunread.bind <| htake.bind (.pure _ t)

theorem collect_answer (opcode : UInt32) (room budget : Nat) (hs : s.Sound) (hp : 0 < timing.dataPolls) (hpending : s.rin ≠ s.rout)
    (hr : r.Answers) {later : List UInt32} (h : s.queue = r.words ++ later) : ∃ t, Taken r.words s t ∧
      Returns ((host timing).collect opcode room budget (some s.rout)) s (answeredBy r room) t := by
  obtain ⟨t, htaken, htake⟩ := returns_takeResponse opcode room hs hp hpending h
  rw [if_pos hr] at htake
  exact ⟨t, htaken, collect_read budget hs hpending htake⟩

/-- A response to somebody else is dropped, which costs one unit of the budget. -/
theorem collect_stray (opcode : UInt32) (room : Nat) (hs : s.Sound) (hp : 0 < timing.dataPolls) (hpending : s.rin ≠ s.rout)
    (hr : ¬ r.Answers) {later : List UInt32} (h : s.queue = r.words ++ later) :
    ∃ t, Taken r.words s t ∧
      Returns ((host timing).collect opcode room 0 (some s.rout)) s missed t ∧
      ∀ budget a u, Returns ((host timing).collect opcode room budget (some t.rout)) t a u →
        Returns ((host timing).collect opcode room (budget + 1) (some s.rout)) s a u := by
  obtain ⟨t, htaken, htake⟩ := returns_takeResponse opcode room hs hp hpending h
  rw [if_neg hr] at htake
  have hunread := returns_unread timing hs
  rw [if_neg hpending] at hunread
  refine ⟨t, htaken, ?_, fun budget a u hrest => ?_⟩
  · unfold collect
    exact hunread.bind <| htake.bind <| (returns_log timing _ t).bind (.pure _ t)
  · rw [collect]
    exact hunread.bind <| htake.bind hrest

section Waits

variable {reading : Option Nat} (hs : s.Sound) (h : Waiting s reading)
include hs h

theorem collect_timeout :
    Returns ((host timing).collect opcode room 0 reading) s missed s := by
  unfold collect
  exact (h.unread hs).bind <| (returns_log timing _ s).bind (.pure _ s)

theorem collect_raised (hraised : s.Raised)
    (hrest : Returns ((host timing).collect opcode room budget (some s.rout))
      { s with doorbell := 0 } a u) :
    Returns ((host timing).collect opcode room (budget + 1) reading) s a u := by
  have hdoorbell := returns_takeDoorbell timing hs
  rw [if_pos hraised, decide_eq_true hraised] at hdoorbell
  have hcleared : Sound { s with doorbell := 0 } :=
    ⟨hs.map, hs.cin, hs.cout, hs.rin, hs.rout, hs.commandCells, hs.responseCells⟩
  rw [collect]
  exact (h.unread hs).bind <| hdoorbell.bind <| (returns_responseCursor hcleared).bind hrest

theorem collect_ticked (hraised : ¬ s.Raised)
    (hrest : Returns ((host timing).collect opcode room budget none) s.ticked a u) :
    Returns ((host timing).collect opcode room (budget + 1) reading) s a u := by
  have hdoorbell := returns_takeDoorbell timing hs
  rw [if_neg hraised, decide_eq_false hraised] at hdoorbell
  rw [collect]
  exact (h.unread hs).bind <| hdoorbell.bind <| (returns_delay hs _).bind hrest

end Waits

end Mailbox

end RemoteUpdate
