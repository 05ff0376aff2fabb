import RemoteUpdate.Proofs.Mailbox.Restarting

/-!
# Sending and receiving apart

Instead of making an attempt at a command, the host may send it, wait for the doorbell, and take whatever is
in the response ring, word for word and without waiting for any. With a device manager that is idle and sends
no strays, it gets the header and the data words of the answer, which are what the attempt makes its result of,
and leaves the device manager in the same state.
-/

namespace RemoteUpdate

namespace EmulatedSdm

variable {s : EmulatedSdm}

/-! ### Honest doorbells -/

/-- The doorbell is not raised without a response to be taken. -/
structure Honest (s : EmulatedSdm) : Prop where
  sound : s.Sound
  urgent : s.urgent = 0
  announced : s.Raised → s.queue ≠ []

theorem Honest.published (h : s.Honest) : s.published.Honest := by
  obtain ⟨hsound, -, hcore, hqueue, -⟩ := published_spec h.sound
  refine ⟨hsound, (congr_core EmulatedSdm.urgent hcore).trans h.urgent, fun hraised => ?_⟩
  by_cases hp : s.Published
  · rw [published_of_published hp] at hraised ⊢
    exact h.announced hraised
  · -- something has been published, so there is something to take
    rw [hqueue, queue]
    exact List.append_ne_nil_of_right_ne_nil _ fun houtbox => hp (.inl houtbox)

theorem Honest.emptied (h : s.Honest) : s.emptied.Honest := by
  obtain ⟨rs, hrs⟩ := outbox_absorbAll s s.commandWords
  have hqueue : s.emptied.queue = s.queue ++ Response.wire rs := by
    rw [emptied_eq, queue, queue, List.append_assoc, ← hrs]
    rfl
  refine ⟨h.sound.emptied, (advances_emptied h.sound).urgent.trans h.urgent, fun hraised => ?_⟩
  rw [hqueue]
  rw [emptied_eq] at hraised
  exact List.append_ne_nil_of_left_ne_nil (h.announced hraised) _

theorem Honest.consumed (h : s.Honest) : s.consumed.Honest :=
  h.emptied.published

theorem Honest.counting (h : s.Honest) (countdown : Option Nat) (overflowDoorbells : Nat) :
    EmulatedSdm.Honest { s with countdown, overflowDoorbells } :=
  ⟨⟨h.sound.map, h.sound.cin, h.sound.cout, h.sound.rin, h.sound.rout, h.sound.commandCells,
    h.sound.responseCells⟩, h.urgent, h.announced⟩

theorem Honest.ticked (h : s.Honest) : s.ticked.Honest := by
  unfold EmulatedSdm.ticked
  split
  · exact (h.counting none _).consumed
  · exact (h.counting none _).consumed
  · exact (h.counting _ _).published
  · exact h.published

theorem Honest.hurried (h : s.Honest) : s.hurried.Honest := by
  unfold EmulatedSdm.hurried
  split
  · exact h.consumed
  · split
    · exact h.counting _ _
    · exact h

theorem Honest.rung (h : s.Honest) : s.rung.Honest := by
  unfold EmulatedSdm.rung
  split
  · exact (h.counting _ _).hurried
  · exact h.hurried

theorem Honest.pushed (h : s.Honest) (word : UInt32) : (s.pushed word).Honest :=
  ⟨h.sound.pushed word, h.urgent, h.announced⟩

end EmulatedSdm

open EmulatedSdm

namespace Mailbox

variable {timing : Timing} {s t u : EmulatedSdm} {r : Response} {new : List Response} {n : Nat}
  {opcode : UInt32} {arguments : List UInt32}

/-! ### Sending -/

theorem honest_writeWord (timing : Timing) (word : UInt32) (polls : Nat) (rung : Bool) (h : s.Honest) :
    ∃ r t, Ends (writeWord.go (host timing) s.cin word polls rung) s r t ∧ t.Honest ∧
      ∀ cin, r = .ok cin → cin = t.cin := by
  induction polls generalizing s rung with
  | zero => exact ⟨_, s, writeWord_zero _ rung s, h, nofun⟩
  | succ polls ih =>
    by_cases hroom : 0 < s.commandRoom
    · refine ⟨_, _, writeWord_room h.sound hroom rung, h.pushed word, ?_⟩
      rintro _ ⟨⟩
      rfl
    · have hwaited : EmulatedSdm.Honest (if rung then s else s.rung).ticked ∧
          (if rung then s else s.rung).ticked.cin = s.cin := by
        cases rung with
        | true => exact ⟨h.ticked, (advances_ticked h.sound).cin⟩
        | false =>
          exact ⟨h.rung.ticked, (advances_ticked h.rung.sound).cin.trans (advances_rung h.sound).cin⟩
      obtain ⟨r, t, hrest, ht⟩ := ih true hwaited.1
      rw [hwaited.2] at hrest
      exact ⟨r, t, writeWord_full h.sound h.urgent (by omega) rung hrest, ht⟩

theorem honest_writeWords (timing : Timing) (words : List UInt32) (h : s.Honest) :
    ∃ r t, Ends ((host timing).writeWords s.cin words) s r t ∧ t.Honest ∧
      ∀ cin, r = .ok cin → cin = t.cin := by
  induction words generalizing s with
  | nil =>
    refine ⟨_, s, .pure _ s, h, ?_⟩
    rintro _ ⟨⟩
    rfl
  | cons word words ih =>
    obtain ⟨r, t, hword, ht, hcin⟩ := honest_writeWord timing word timing.commandPolls false h
    cases r with
    | error e => exact ⟨_, t, hword.bind_error, ht, nofun⟩
    | ok cin =>
      obtain rfl := hcin cin rfl
      obtain ⟨r, u, hwords, hu⟩ := ih ht
      exact ⟨r, u, hword.bind hwords, hu⟩

/-- Sending a command does not raise the doorbell unless an answer has come. -/
theorem honest_sendCommand (timing : Timing) (h : s.Honest) (hopcode : opcode ≤ maxOpcode)
    (harguments : arguments.length ≤ maxArguments) :
    ∃ r t, Ends ((host timing).sendCommand opcode false arguments) s r t ∧ t.Honest := by
  obtain ⟨r, t, hwords, ht, hcin⟩ :=
    honest_writeWords timing (LoggedCommand.fromHost opcode arguments).words h
  cases r with
  | error e => exact ⟨_, t, sendCommand_error h.sound hopcode harguments hwords, ht⟩
  | ok cin =>
    obtain rfl := hcin cin rfl
    exact ⟨_, _, sendCommand_ok h.sound hopcode harguments ht.urgent ht.sound hwords, ht.rung⟩

/-! ### Waiting -/

/-- After `n` ticks in `s` it is `t`, whether the host waits for the doorbell or collects an answer. -/
structure Waits (timing : Timing) (n : Nat) (s t : EmulatedSdm) : Prop where
  doorbell : ∀ {budget r u}, Ends ((host timing).waitDoorbell budget) t r u →
    Ends ((host timing).waitDoorbell (n + budget)) s r u
  collect : ∀ {opcode room budget a u}, Returns ((host timing).collect opcode room budget none) t a u →
    Returns ((host timing).collect opcode room (n + budget) none) s a u

theorem waits_zero (timing : Timing) (s : EmulatedSdm) : Waits timing 0 s s where
  doorbell h := by rwa [Nat.zero_add]
  collect h := by rwa [Nat.zero_add]

theorem Waits.ticked (hs : s.Sound) (hsilent : ¬ s.Raised) (h : Waits timing n s.ticked t) :
    Waits timing (n + 1) s t where
  doorbell {budget r u} hrest := by
    have hdoorbell := returns_takeDoorbell timing hs
    rw [if_neg hsilent, decide_eq_false hsilent] at hdoorbell
    rw [Nat.succ_add]
    unfold waitDoorbell
    exact (Ends.lift hdoorbell).bind <| (Ends.lift (returns_delay hs _)).bind (h.doorbell hrest)
  collect hrest := by
    rw [Nat.succ_add]
    exact collect_ticked hs (.inl rfl) hsilent (h.collect hrest)

/-- The doorbell is silent until the clock runs out, and then the answer is there. -/
theorem waits_due {c : Nat} (h : Due (c + 1) [] new s) (ha : s.Alert) (hsilent : ¬ s.Raised) :
    ∃ t, Waits timing (c + 1) s t ∧ Ripe new t ∧ t.Raised := by
  induction c generalizing s with
  | zero =>
    obtain ⟨hripe, hraised⟩ := h.ripe ha
    exact ⟨s.ticked, (waits_zero timing s.ticked).ticked h.sound hsilent, hripe, hraised⟩
  | succ c ih =>
    have hpublished : s.Published := .inl (List.append_eq_nil_iff.mp h.queue).2
    have hsilent' : ¬ s.ticked.Raised := by
      rw [ticked_silent h.clock hpublished]
      exact hsilent
    obtain ⟨t, hwaits, hripe⟩ := ih (h.next ha) ((advances_ticked h.sound).alert ha) hsilent'
    exact ⟨t, hwaits.ticked h.sound hsilent, hripe⟩

theorem sendCommand_waits (h : Idle s) (hqueue : s.queue = []) (hsilent : ¬ s.Raised)
    (hdoorbells : s.lostDoorbells = some 0) (hstrays : s.strays = 0) (hopcode : opcode ≤ maxOpcode)
    (harguments : arguments.length ≤ maxArguments) (hpatient : timing.Patient s.consumeDelay) :
    ∃ n u t, n ≤ s.consumeDelay ∧ Ends ((host timing).sendCommand opcode false arguments) s (.ok ()) u ∧
      Waits timing n u t ∧ Ripe [answer (.fromHost opcode arguments) s] t ∧ t.Raised := by
  have hqueue : s.queue = Response.wire [] := hqueue
  have hresponses : responses (.fromHost opcode arguments) s = [answer (.fromHost opcode arguments) s] := by
    rw [responses, hstrays]
    rfl
  obtain ⟨u, hsend, -, -, halert, hcases⟩ :=
    sendCommand_idle h (alert_of_empty h.sound hdoorbells hqueue) hqueue hopcode harguments
      (.inl hpatient)
  rw [hresponses] at hcases
  rcases hcases with ⟨hripe, hraised⟩ | ⟨c, hc, hdue⟩
  · exact ⟨0, u, u, Nat.zero_le _, hsend, waits_zero timing u, hripe, hraised⟩
  · have honest : s.Honest := ⟨h.sound, h.urgent, fun hraised => absurd hraised hsilent⟩
    obtain ⟨_, u', hsend', hu⟩ := honest_sendCommand timing honest hopcode harguments
    obtain ⟨-, rfl⟩ := Returns.unique hsend hsend'
    obtain ⟨t, hwaits, hripe⟩ := waits_due hdue halert fun hraised => hu.announced hraised hdue.queue
    exact ⟨c + 1, u, t, hc, hsend, hwaits, hripe⟩

/-! ### Taking -/

theorem receive_nothing (hs : s.Sound) (h : s.queue = []) (room : Nat) :
    Returns (receive.go (host timing) room s.rout) s [] s := by
  have hempty : s.rin = s.rout := hs.responseWords_eq_nil.mp (List.append_eq_nil_iff.mp h).1
  cases room with
  | zero => exact .pure [] s
  | succ room =>
    have hpending : Returns ((host timing).responsePending s.rout) s _ s := returns_responsePending hs
    rw [hempty, bne_self_eq_false] at hpending
    unfold receive.go
    exact hpending.bind (.pure [] s)

/-- Whoever has heard the doorbell finds words in the response ring. -/
theorem waitResponse_heard (h : Ripe (r :: new) t)
    (hheard : Ends ((host timing).waitDoorbell timing.doorbellPolls) s (.ok ()) t) :
    Ends (host timing).waitResponse s (.ok true) t := by
  have hpending : t.rin ≠ t.rout := h.published.pending h.sound (by rw [h.queue]; exact List.cons_ne_nil _ _)
  have hlook : Returns ((host timing).responsePending t.rout) t _ t := returns_responsePending h.sound
  rw [bne_iff_ne.mpr hpending] at hlook
  unfold waitResponse
  exact hheard.bind <| (Ends.lift (returns_responseCursor h.sound)).bind (.lift hlook)

/-- An answer that is there may be collected, or be taken word for word once the doorbell has been cleared. -/
theorem taken_either_way (h : Ripe [r] s) (hraised : s.Raised) (hr : r.Answers) (hp : 0 < timing.dataPolls) :
    ∃ t, (∀ opcode room budget,
        Returns ((host timing).collect opcode room (budget + 1) none) s (answeredBy r room) t) ∧
      ∀ room, r.data.length < room → Returns ((host timing).receive room) { s with doorbell := 0 } r.words t := by
  have hcleared : Ripe [r] { s with doorbell := 0 } := h.cleared
  have hqueue : EmulatedSdm.queue { s with doorbell := 0 } = r.words ++ [] := hcleared.queue
  have hpending : s.rin ≠ s.rout := h.published.pending h.sound (by rw [h.queue]; exact List.cons_ne_nil _ _)
  obtain ⟨t, htaken, hread, hdata, hreceive⟩ := returns_response hcleared.sound hp hpending hqueue
  have hnothing : t.queue = [] := (hcleared.taken htaken).queue
  refine ⟨t, fun opcode room budget => ?_, fun room hroom => ?_⟩
  · have htake := takeResponse_read hread hdata opcode room
    rw [if_pos hr] at htake
    exact collect_raised h.sound (.inl rfl) hraised (collect_read budget hcleared.sound hpending htake)
  · obtain ⟨more, rfl⟩ : ∃ more, room = r.words.length + more := Nat.exists_eq_add_of_le hroom
    have hdoorbell := returns_takeDoorbell timing hcleared.sound
    rw [if_neg (not_raised_cleared s)] at hdoorbell
    have hgo := hreceive more [] t (receive_nothing htaken.sound hnothing more)
    rw [List.append_nil] at hgo
    unfold receive
    exact hdoorbell.discard.bind <| (returns_responseCursor hcleared.sound).bind hgo

/-! ### Both ways -/

theorem header_fromHost (opcode : UInt32) (arguments : List UInt32) :
    (LoggedCommand.fromHost opcode arguments).header.client = hostClient ∧
      (LoggedCommand.fromHost opcode arguments).header.transaction = hostTransaction := by
  rw [LoggedCommand.fromHost, CommandHeader.client_make, CommandHeader.transaction_make]
  decide

theorem header_answer (opcode : UInt32) (arguments : List UInt32) (s : EmulatedSdm) :
    (answer (.fromHost opcode arguments) s).header.client = hostClient ∧
      (answer (.fromHost opcode arguments) s).header.transaction = hostTransaction := by
  have hanswers := answers_answer opcode arguments s
  simpa [Response.Answers, ResponseHeader.answers] using hanswers

/-- Sending a command, waiting and receiving give the words of its answer: a header with the client and the
transaction of the host, and the length and the code of the answer, and then its data. One attempt at the
command makes its result of the same code and data, and leaves the device manager in the same state. -/
theorem split_agrees (s : EmulatedSdm) (opcode : UInt32) (arguments : List UInt32) (h : Idle s)
    (hqueue : s.queue = []) (hsilent : ¬ s.Raised) (hdoorbells : s.lostDoorbells = some 0)
    (hstrays : s.strays = 0) (hdelay : s.consumeDelay + 2 ≤ ({} : Timing).doorbellPolls)
    (hopcode : opcode ≤ maxOpcode) (harguments : arguments.length ≤ maxArguments) :
    ∃ (c : LoggedCommand) (r : Response) (u v t : EmulatedSdm),
      c = .fromHost opcode arguments ∧ r = answer c s ∧ r.data = (replied c s).2.2 ∧
      r.header = .make hostClient hostTransaction r.data.length (replied c s).2.1 ∧
      r.header.client = hostClient ∧ r.header.transaction = hostTransaction ∧
      r.header.length = r.data.length ∧
      Ends ((host {}).sendCommand opcode false arguments) s (.ok ()) u ∧
      Ends (host {}).waitResponse u (.ok true) v ∧
      (∀ room, r.data.length < room → Returns ((host {}).receive room) v (r.header.word :: r.data) t) ∧
      ∀ room, Returns ((host {}).attempt opcode arguments false room) s
        { result := resultOfCode r.header.code (min room r.data.length), copied := r.data.take room } t := by
  have hdelay : s.consumeDelay + 2 ≤ 1000 := hdelay
  have hpatient : ({} : Timing).Patient s.consumeDelay := by
    show max s.consumeDelay 1 < 1000
    omega
  obtain ⟨n, u, v, hn, hsend, hwaits, hripe, hraised⟩ :=
    sendCommand_waits h hqueue hsilent hdoorbells hstrays hopcode harguments hpatient
  obtain ⟨t, hcollect, hreceive⟩ :=
    taken_either_way hripe hraised (answers_answer opcode arguments s) (show 0 < ({} : Timing).dataPolls by decide)
  obtain ⟨more, hmore⟩ : ∃ more, ({} : Timing).doorbellPolls = n + (more + 1) :=
    ⟨999 - n, by show 1000 = _; omega⟩
  -- the time spent waiting is part of the same budget in both ways of doing it
  have hheard := hwaits.doorbell (returns_waitDoorbell hripe.sound hraised (Nat.succ_pos more))
  rw [← hmore] at hheard
  obtain ⟨hclient, htransaction⟩ := header_answer opcode arguments s
  refine ⟨.fromHost opcode arguments, answer _ s, u, { v with doorbell := 0 }, t, rfl, rfl, rfl, ?_, hclient,
    htransaction, (answer _ s).whole.symm, hsend, waitResponse_heard hripe.cleared hheard, hreceive,
    fun room => ?_⟩
  · obtain ⟨hclient, htransaction⟩ := header_fromHost opcode arguments
    rw [← hclient, ← htransaction]
    rfl
  · have hgo := hwaits.collect (hcollect opcode room more)
    rw [← hmore] at hgo
    rw [← result_answeredBy]
    exact attempt_sent hsend hgo

def unhurried : EmulatedSdm :=
  { (fresh {}) with consumeDelay := 3 }

/-- The partition table request, whose answer has a header and four words. -/
theorem split_agrees_unhurried : ∃ u v t,
    Ends ((host {}).sendCommand 90 false []) unhurried (.ok ()) u ∧
      Ends (host {}).waitResponse u (.ok true) v ∧
      Returns ((host {}).receive 16) v [0xb1004000, 0, 0x100000, 0, 0x108000] t ∧
      Returns ((host {}).attempt 90 [] false 4) unhurried
        { result := .ok 4, copied := [0, 0x100000, 0, 0x108000] } t := by
  obtain ⟨c, r, u, v, t, rfl, rfl, -, -, -, -, -, hsend, hwait, hreceive, hattempt⟩ :=
    split_agrees unhurried 90 [] ⟨⟨rfl, by decide, by decide, by decide, by decide, rfl, rfl⟩, rfl, rfl, rfl, rfl⟩
      rfl (by decide) rfl rfl (by decide) (by decide) (by decide)
  exact ⟨u, v, t, hsend, hwait, hreceive 16 (by decide), hattempt 4⟩

end Mailbox

end RemoteUpdate
