import RemoteUpdate.Proofs.Mailbox.Collecting

/-!
# Waiting for the answer

How long it takes to collect the answer to a command that has been sent: one unit of the budget for every
response in front of it, one for every tick until the command is consumed, one for the doorbell that
announces the answer, and at most three for doorbells and publications that concern older responses.
-/

namespace RemoteUpdate

open EmulatedSdm

/-- The device manager has seen every command and published what fits into the response ring; the
responses in its queue are `rs`. -/
structure EmulatedSdm.Ripe (rs : List Response) (s : EmulatedSdm) : Prop where
  sound : s.Sound
  lost : s.lostDoorbells = some 0
  queue : s.queue = Response.wire rs
  published : s.Published
  empty : s.commandWords = []
  stopped : s.countdown = none

/-- The device manager will see every command in `c` ticks; the responses in its queue are `q`, and when
it has caught up there will be `new` behind them. -/
structure EmulatedSdm.Due (c : Nat) (q new : List Response) (s : EmulatedSdm) : Prop where
  sound : s.Sound
  lost : s.lostDoorbells = some 0
  queue : s.queue = Response.wire q
  outbox : s.caughtUp.outbox = Response.wire (q ++ new)
  more : new ≠ []
  clock : s.countdown = some c

/-- From `s` to `t` the host took all responses, and the device manager is left with nothing to do. -/
structure EmulatedSdm.Finished (words : List UInt32) (s t : EmulatedSdm) : Prop where
  sound : t.Sound
  lost : t.lostDoorbells = some 0
  empty : t.commandWords = []
  stopped : t.countdown = none
  urgent : t.urgent = s.urgent
  caughtUp : s.caughtUp = t.caughtUp.behind blank words

namespace EmulatedSdm

variable {s t u : EmulatedSdm} {words words' : List UInt32} {c : Nat} {q new rs : List Response}

theorem Finished.after (h : Finished words u t) (hurgent : u.urgent = s.urgent)
    (hcaught : s.caughtUp = u.caughtUp.behind blank words') : Finished (words' ++ words) s t where
  sound := h.sound
  lost := h.lost
  empty := h.empty
  stopped := h.stopped
  urgent := h.urgent.trans hurgent
  caughtUp := by rw [hcaught, h.caughtUp, behind_behind]

theorem Finished.advances (h : Finished words u t) (h' : Advances s u) : Finished words s t := by
  show Finished ([] ++ words) s t
  exact h.after h'.urgent (by rw [h'.caughtUp, caughtUp_behind_nil])

theorem Finished.taken (h : Finished words u t) (h' : Taken words' s u) :
    Finished (words' ++ words) s t :=
  h.after (congr_core EmulatedSdm.urgent h'.core) h'.caughtUp

theorem Finished.cleared (h : Finished words { s with doorbell := 0 } t) : Finished words s t := by
  show Finished ([] ++ words) s t
  exact h.after rfl (caughtUp_behind_nil s).symm

theorem Ripe.cleared (h : Ripe rs s) : Ripe rs { s with doorbell := 0 } :=
  ⟨⟨h.sound.map, h.sound.cin, h.sound.cout, h.sound.rin, h.sound.rout, h.sound.commandCells,
    h.sound.responseCells⟩, h.lost, h.queue, h.published, h.empty, h.stopped⟩

theorem Due.cleared (h : Due c q new s) : Due c q new { s with doorbell := 0 } :=
  ⟨⟨h.sound.map, h.sound.cin, h.sound.cout, h.sound.rin, h.sound.rout, h.sound.commandCells,
    h.sound.responseCells⟩, h.lost, h.queue, h.outbox, h.more, h.clock⟩

theorem Taken.lost (h : Taken words s t) (hne : words ≠ []) (hlost : s.lostDoorbells = some 0) :
    t.lostDoorbells = some 0 :=
  (h.alert hlost hne).1

theorem Ripe.taken {r : Response} (h : Ripe (r :: rs) s) (h' : Taken r.words s t) : Ripe rs t where
  sound := h'.sound
  lost := h'.lost (List.cons_ne_nil _ _) h.lost
  queue := by
    have hqueue := h.queue
    rw [h'.queue] at hqueue
    exact List.append_cancel_left hqueue
  published := h'.published
  empty := (commandWords_congr h'.core).trans h.empty
  stopped := (congr_core EmulatedSdm.countdown h'.core).trans h.stopped

theorem Due.taken {r : Response} (h : Due c (r :: q) new s) (h' : Taken r.words s t) :
    Due c q new t where
  sound := h'.sound
  lost := h'.lost (List.cons_ne_nil _ _) h.lost
  queue := by
    have hqueue := h.queue
    rw [h'.queue] at hqueue
    exact List.append_cancel_left hqueue
  outbox := by
    have houtbox := h.outbox
    rw [h'.caughtUp] at houtbox
    exact List.append_cancel_left houtbox
  more := h.more
  clock := (congr_core EmulatedSdm.countdown h'.core).trans h.clock

theorem Ripe.finished {r : Response} (h : Ripe (r :: rs) s) (h' : Taken r.words s t) :
    Finished r.words s t := by
  have ht := h.taken h'
  have hnil : Finished [] t t := ⟨ht.sound, ht.lost, ht.empty, ht.stopped, rfl,
    (caughtUp_behind_nil t).symm⟩
  have hfinished := hnil.taken h'
  rwa [List.append_nil] at hfinished

/-- When the clock runs out, the answer is there and the doorbell announces it. -/
theorem Due.ripe (h : Due 1 q new s) (ha : s.Alert) : Ripe (q ++ new) s.ticked ∧ s.ticked.Raised := by
  obtain ⟨hempty, hstopped, hraised⟩ := ticked_due h.sound h.clock
  have hadv := advances_ticked h.sound
  have hmore : s.caughtUp.outbox ≠ s.queue := by
    rw [h.outbox, h.queue]
    intro heq
    have := Response.wire_injective heq
    exact h.more (by simpa using this)
  have hqueue : s.ticked.queue = Response.wire (q ++ new) := by
    rw [(settled_of_empty hempty).1, hadv.caughtUp, h.outbox]
  exact ⟨⟨hadv.sound, (hadv.alert ha).1, hqueue, published_ticked h.sound, hempty, hstopped⟩,
    hraised ha hmore⟩

theorem Due.next (h : Due (c + 2) q new s) (ha : s.Alert) : Due (c + 1) q new s.ticked := by
  obtain ⟨-, hclock, hqueue⟩ := ticked_early h.sound h.clock
  have hadv := advances_ticked h.sound
  exact ⟨hadv.sound, (hadv.alert ha).1, hqueue.trans h.queue, hadv.caughtUp ▸ h.outbox, h.more, hclock⟩

end EmulatedSdm

namespace Mailbox

variable {timing : Timing} {s : EmulatedSdm} {c : Nat} {q new later : List Response} {r : Response}
  {reading : Option Nat} (opcode : UInt32) (room : Nat)

/-! ### The answer is there -/

/-- The first response that answers is collected, and those behind it are left. -/
theorem collect_front (budget : Nat) (hp : 0 < timing.dataPolls) (hq : ∀ r ∈ q, ¬ r.Answers)
    (hr : r.Answers) (h : Ripe (q ++ r :: later) s) (hbudget : q.length ≤ budget) :
    ∃ t, Returns ((host timing).collect opcode room budget (some s.rout)) s (answeredBy r room) t ∧
      Finished (Response.wire (q ++ [r])) s t ∧ Ripe later t := by
  induction q generalizing s budget with
  | nil =>
    have hpending : s.rin ≠ s.rout := h.published.pending h.sound (by rw [h.queue]; simp)
    obtain ⟨t, htaken, hcollect⟩ := collect_answer opcode room budget h.sound hp hpending hr h.queue
    have hfinished := h.finished htaken
    rw [← List.append_nil r.words] at hfinished
    exact ⟨t, hcollect, hfinished, h.taken htaken⟩
  | cons stray q ih =>
    have hpending : s.rin ≠ s.rout := h.published.pending h.sound (by rw [h.queue]; simp)
    have hstray : ¬ stray.Answers := hq stray List.mem_cons_self
    obtain ⟨t, htaken, -, hdrop⟩ := collect_stray opcode room h.sound hp hpending hstray h.queue
    rw [List.length_cons] at hbudget
    obtain ⟨budget, rfl⟩ : ∃ b, budget = b + 1 := ⟨budget - 1, by omega⟩
    obtain ⟨u, hcollect, hfinished, hleft⟩ := ih budget (fun r hr => hq r (List.mem_cons_of_mem _ hr))
      (h.taken htaken) (by omega)
    exact ⟨u, hdrop _ _ _ hcollect, hfinished.taken htaken, hleft⟩

theorem collect_front_raised (budget : Nat) (hp : 0 < timing.dataPolls) (hq : ∀ r ∈ q, ¬ r.Answers)
    (hr : r.Answers) (h : Ripe (q ++ r :: later) s) (hraised : s.Raised) (hwaiting : Waiting s reading)
    (hbudget : q.length + 1 ≤ budget) :
    ∃ t, Returns ((host timing).collect opcode room budget reading) s (answeredBy r room) t ∧
      Finished (Response.wire (q ++ [r])) s t ∧ Ripe later t := by
  obtain ⟨budget, rfl⟩ : ∃ b, budget = b + 1 := ⟨budget - 1, by omega⟩
  obtain ⟨t, hcollect, hfinished, hleft⟩ := collect_front opcode room budget hp hq hr h.cleared (by omega)
  exact ⟨t, collect_raised h.sound hwaiting hraised hcollect, hfinished.cleared, hleft⟩

theorem collect_ripe_raised (budget : Nat) (hp : 0 < timing.dataPolls) (hq : ∀ r ∈ q, ¬ r.Answers)
    (hr : r.Answers) (h : Ripe (q ++ [r]) s) (hraised : s.Raised) (hwaiting : Waiting s reading)
    (hbudget : q.length + 1 ≤ budget) :
    ∃ t, Returns ((host timing).collect opcode room budget reading) s (answeredBy r room) t ∧
      Finished (Response.wire (q ++ [r])) s t := by
  obtain ⟨t, hcollect, hfinished, -⟩ :=
    collect_front_raised opcode room budget hp hq hr h hraised hwaiting hbudget
  exact ⟨t, hcollect, hfinished⟩

/-! ### The answer is on its way -/

section Due

variable (hp : 0 < timing.dataPolls) (hq : ∀ r ∈ q, ¬ r.Answers) (hnew : ∀ r ∈ new, ¬ r.Answers)
  (hr : r.Answers)
include hp hq hnew hr

theorem collect_last (budget : Nat) (h : Due 1 q (new ++ [r]) s) (ha : s.Alert)
    (hsilent : ¬ s.Raised) (hwaiting : Waiting s reading)
    (hbudget : q.length + new.length + 2 ≤ budget) :
    ∃ t, Returns ((host timing).collect opcode room budget reading) s (answeredBy r room) t ∧
      Finished (Response.wire (q ++ (new ++ [r]))) s t := by
  obtain ⟨budget, rfl⟩ : ∃ b, budget = b + 1 := ⟨budget - 1, by omega⟩
  obtain ⟨hripe, hraised⟩ := h.ripe ha
  rw [← List.append_assoc] at hripe ⊢
  have hall : ∀ r ∈ q ++ new, ¬ r.Answers := by
    intro r hr
    rcases List.mem_append.mp hr with hr | hr
    · exact hq r hr
    · exact hnew r hr
  obtain ⟨t, hcollect, hfinished⟩ := collect_ripe_raised opcode room budget hp hall hr hripe hraised
    (.inl rfl) (by rw [List.length_append]; omega)
  exact ⟨t, collect_ticked h.sound hwaiting hsilent hcollect,
    hfinished.advances (advances_ticked h.sound)⟩

/-- With nothing to be published and the doorbell silent, the driver ticks until the clock runs out. -/
theorem collect_silent (budget : Nat) (h : Due (c + 1) q (new ++ [r]) s) (ha : s.Alert)
    (hsilent : ¬ s.Raised) (hpublished : s.Published) (hwaiting : Waiting s reading)
    (hbudget : q.length + new.length + (c + 1) + 1 ≤ budget) :
    ∃ t, Returns ((host timing).collect opcode room budget reading) s (answeredBy r room) t ∧
      Finished (Response.wire (q ++ (new ++ [r]))) s t := by
  induction c generalizing s budget reading with
  | zero => exact collect_last opcode room hp hq hnew hr budget h ha hsilent hwaiting (by omega)
  | succ c ih =>
    obtain ⟨budget, rfl⟩ : ∃ b, budget = b + 1 := ⟨budget - 1, by omega⟩
    have hadv := advances_ticked h.sound
    have hsilent' : ¬ s.ticked.Raised := by
      rw [ticked_silent h.clock hpublished]
      exact hsilent
    obtain ⟨t, hcollect, hfinished⟩ := ih budget (h.next ha) (hadv.alert ha) hsilent'
      (published_ticked h.sound) (.inl rfl) (by omega)
    exact ⟨t, collect_ticked h.sound hwaiting hsilent hcollect, hfinished.advances hadv⟩

/-- What is in the queue is dropped first, and may have rung the doorbell once more. -/
theorem collect_reading (budget : Nat) (h : Due (c + 1) q (new ++ [r]) s)
    (hready : s.Published ∨ s.rin ≠ s.rout)
    (hbudget : q.length + new.length + (c + 1) + 2 ≤ budget) :
    ∃ t, Returns ((host timing).collect opcode room budget (some s.rout)) s (answeredBy r room) t ∧
      Finished (Response.wire (q ++ (new ++ [r]))) s t := by
  -- the strays already out are dropped one by one, and then the rest is waited for
  induction q generalizing s budget with
  | nil =>
    obtain ⟨hring, houtbox⟩ := List.append_eq_nil_iff.mp h.queue
    have hidle : s.rin = s.rout := h.sound.responseWords_eq_nil.mp hring
    have halert : s.Alert := alert_of_empty h.sound h.lost h.queue
    by_cases hraised : s.Raised
    · obtain ⟨budget, rfl⟩ : ∃ b, budget = b + 1 := ⟨budget - 1, by omega⟩
      obtain ⟨t, hcollect, hfinished⟩ := collect_silent opcode room hp hq hnew hr budget h.cleared
        (alert_of_empty h.cleared.sound h.lost h.queue) (not_raised_cleared s) (.inl houtbox) (.inr ⟨rfl, hidle⟩) (by omega)
      exact ⟨t, collect_raised h.sound (.inr ⟨rfl, hidle⟩) hraised hcollect, hfinished.cleared⟩
    · exact collect_silent opcode room hp hq hnew hr budget h halert hraised (.inl houtbox)
        (.inr ⟨rfl, hidle⟩) (by omega)
  | cons stray q ih =>
    have hpending : s.rin ≠ s.rout := by
      rcases hready with hpublished | hpending
      · exact hpublished.pending h.sound (by rw [h.queue]; simp)
      · exact hpending
    have hstray : ¬ stray.Answers := hq stray List.mem_cons_self
    obtain ⟨t, htaken, -, hdrop⟩ := collect_stray opcode room h.sound hp hpending hstray h.queue
    rw [List.length_cons] at hbudget
    obtain ⟨budget, rfl⟩ : ∃ b, budget = b + 1 := ⟨budget - 1, by omega⟩
    obtain ⟨u, hcollect, hfinished⟩ := ih (fun r hr => hq r (List.mem_cons_of_mem _ hr)) budget
      (h.taken htaken) (.inl htaken.published) (by omega)
    exact ⟨u, hdrop _ _ _ hcollect, hfinished.taken htaken⟩

theorem collect_due_raised (budget : Nat) (h : Due (c + 1) q (new ++ [r]) s) (hraised : s.Raised)
    (hready : s.Published ∨ s.rin ≠ s.rout) (hwaiting : Waiting s reading)
    (hbudget : q.length + new.length + (c + 1) + 3 ≤ budget) :
    ∃ t, Returns ((host timing).collect opcode room budget reading) s (answeredBy r room) t ∧
      Finished (Response.wire (q ++ (new ++ [r]))) s t := by
  obtain ⟨budget, rfl⟩ : ∃ b, budget = b + 1 := ⟨budget - 1, by omega⟩
  obtain ⟨t, hcollect, hfinished⟩ := collect_reading opcode room hp hq hnew hr budget h.cleared hready
    (by omega)
  exact ⟨t, collect_raised h.sound hwaiting hraised hcollect, hfinished.cleared⟩

/-- A tick publishes what can be published, and rings for it. -/
theorem collect_due_silent (budget : Nat) (h : Due (c + 1) q (new ++ [r]) s) (ha : s.Alert)
    (hsilent : ¬ s.Raised) (hwaiting : Waiting s reading)
    (hbudget : q.length + new.length + (c + 1) + 3 ≤ budget) :
    ∃ t, Returns ((host timing).collect opcode room budget reading) s (answeredBy r room) t ∧
      Finished (Response.wire (q ++ (new ++ [r]))) s t := by
  cases c with
  | zero => exact collect_last opcode room hp hq hnew hr budget h ha hsilent hwaiting (by omega)
  | succ c =>
    obtain ⟨budget, rfl⟩ : ∃ b, budget = b + 1 := ⟨budget - 1, by omega⟩
    have hadv := advances_ticked h.sound
    have hpublished := published_ticked h.sound
    have hnext : ∃ t, Returns ((host timing).collect opcode room budget none) s.ticked
        (answeredBy r room) t ∧ Finished (Response.wire (q ++ (new ++ [r]))) s.ticked t := by
      by_cases hraised : s.ticked.Raised
      · exact collect_due_raised opcode room hp hq hnew hr budget (h.next ha) hraised
          (.inl hpublished) (.inl rfl) (by omega)
      · exact collect_silent opcode room hp hq hnew hr budget (h.next ha) (hadv.alert ha) hraised
          hpublished (.inl rfl) (by omega)
    obtain ⟨t, hcollect, hfinished⟩ := hnext
    exact ⟨t, collect_ticked h.sound hwaiting hsilent hcollect, hfinished.advances hadv⟩

/-- However the mailbox is found, the answer is collected. -/
theorem collect_due (budget : Nat) (h : Due (c + 1) q (new ++ [r]) s) (ha : s.Alert)
    (hbudget : q.length + new.length + (c + 1) + 4 ≤ budget) :
    ∃ t, Returns ((host timing).collect opcode room budget none) s (answeredBy r room) t ∧
      Finished (Response.wire (q ++ (new ++ [r]))) s t := by
  by_cases hraised : s.Raised
  · by_cases hready : s.Published ∨ s.rin ≠ s.rout
    · exact collect_due_raised opcode room hp hq hnew hr budget h hraised hready (.inl rfl) (by omega)
    · -- the doorbell is stale: what it should announce has not been published
      rw [not_or, Published, not_or, not_not] at hready
      obtain ⟨budget, rfl⟩ : ∃ b, budget = b + 1 := ⟨budget - 1, by omega⟩
      obtain ⟨t, hcollect, hfinished⟩ := collect_due_silent opcode room hp hq hnew hr budget h.cleared
        ⟨h.lost, .inr (Nat.pos_of_ne_zero hready.1.2)⟩ (not_raised_cleared s) (.inr ⟨rfl, hready.2⟩)
        (by omega)
      exact ⟨t, collect_raised h.sound (.inl rfl) hraised hcollect, hfinished.cleared⟩
  · exact collect_due_silent opcode room hp hq hnew hr budget h ha hraised (.inl rfl) (by omega)

end Due

end Mailbox

end RemoteUpdate
