import RemoteUpdate.Proofs.Mailbox.Collecting

/-!
# Invariants of the driver

A logic for runs of the driver, whatever they come to: a program keeps an invariant if it is never aborted
and leaves the invariant intact. Neither time nor the collecting of responses touches what is between the
host and the command ring, so for an invariant that says no more, `Steady`, only the sending of commands is
left to look at.
-/

namespace RemoteUpdate

open EmulatedSdm

variable {α β : Type}

/-! ### Programs that keep an invariant -/

/-- The program returns from every state with the invariant, with a value of this kind, and leaves a state
with the invariant. -/
def Keeps (I : EmulatedSdm → Prop) (x : RegisterM EmulatedSdm α) (Q : α → Prop) : Prop :=
  ∀ s, I s → ∃ a t, Returns x s a t ∧ I t ∧ Q a

/-- As `Keeps`, for a program that may fail. -/
def Tries (I : EmulatedSdm → Prop) (x : MailboxM EmulatedSdm α) (Q : α → Prop) : Prop :=
  ∀ s, I s → ∃ r t, Ends x s r t ∧ I t ∧ ∀ a, r = .ok a → Q a

/-- No matter what. -/
def Whatever (_ : α) : Prop := True

section Rules

variable {I : EmulatedSdm → Prop} {Q : α → Prop} {R : β → Prop} {a : α}

theorem Keeps.pure (h : Q a) : Keeps I (Pure.pure a) Q := by
  intro s hs
  exact ⟨a, s, .pure a s, hs, h⟩

theorem Keeps.bind {x : RegisterM EmulatedSdm α} {f : α → RegisterM EmulatedSdm β} (h : Keeps I x Q)
    (h' : ∀ a, Q a → Keeps I (f a) R) : Keeps I (x >>= f) R := by
  intro s hs
  obtain ⟨a, t, hx, ht, ha⟩ := h s hs
  obtain ⟨b, u, hf, hu, hb⟩ := h' a ha t ht
  exact ⟨b, u, hx.bind hf, hu, hb⟩

theorem Keeps.mono {x : RegisterM EmulatedSdm α} {Q' : α → Prop} (h : Keeps I x Q)
    (h' : ∀ a, Q a → Q' a) : Keeps I x Q' := by
  intro s hs
  obtain ⟨a, t, hx, ht, ha⟩ := h s hs
  exact ⟨a, t, hx, ht, h' a ha⟩

theorem Keeps.discard {x : RegisterM EmulatedSdm α} (h : Keeps I x Q) :
    Keeps I (discard x) Whatever := by
  intro s hs
  obtain ⟨a, t, hx, ht, -⟩ := h s hs
  exact ⟨(), t, hx.discard, ht, trivial⟩

theorem Keeps.get {f : EmulatedSdm → RegisterM EmulatedSdm α}
    (h : ∀ s, I s → ∃ a t, Returns (f s) s a t ∧ I t ∧ Q a) : Keeps I (MonadState.get >>= f) Q := by
  intro s hs
  obtain ⟨a, t, hf, ht⟩ := h s hs
  exact ⟨a, t, (Returns.get s).bind hf, ht⟩

theorem Tries.pure (h : Q a) : Tries I (Pure.pure a) Q := by
  intro s hs
  refine ⟨.ok a, s, .pure a s, hs, ?_⟩
  rintro _ ⟨⟩
  exact h

theorem Tries.throw (e : MailboxError) : Tries I (throw e) Q := by
  intro s hs
  refine ⟨.error e, s, .throw e s, hs, ?_⟩
  rintro _ ⟨⟩

theorem Tries.bind {x : MailboxM EmulatedSdm α} {f : α → MailboxM EmulatedSdm β} (h : Tries I x Q)
    (h' : ∀ a, Q a → Tries I (f a) R) : Tries I (x >>= f) R := by
  intro s hs
  obtain ⟨r, t, hx, ht, hr⟩ := h s hs
  cases r with
  | error e =>
    refine ⟨.error e, t, hx.bind_error, ht, ?_⟩
    rintro _ ⟨⟩
  | ok a =>
    obtain ⟨r, u, hf, hu, hb⟩ := h' a (hr a rfl) t ht
    exact ⟨r, u, hx.bind hf, hu, hb⟩

theorem Tries.lift {x : RegisterM EmulatedSdm α} (h : Keeps I x Q) : Tries I (liftM x) Q := by
  intro s hs
  obtain ⟨a, t, hx, ht, ha⟩ := h s hs
  refine ⟨.ok a, t, .lift hx, ht, ?_⟩
  rintro _ ⟨⟩
  exact ha

theorem Tries.discard {x : MailboxM EmulatedSdm α} (h : Tries I x Q) :
    Tries I (discard x) Whatever := by
  intro s hs
  obtain ⟨r, t, hx, ht, -⟩ := h s hs
  cases r with
  | error e => exact ⟨_, t, hx.discard_error, ht, fun _ _ => trivial⟩
  | ok a => exact ⟨_, t, hx.discard_ok, ht, fun _ _ => trivial⟩

theorem Tries.run {x : MailboxM EmulatedSdm α} (h : Tries I x Q) :
    Keeps I x.run fun r => ∀ a, r = .ok a → Q a :=
  h

end Rules

namespace Mailbox

/-- An invariant that neither time nor the collecting of responses breaks. -/
structure Steady (I : EmulatedSdm → Prop) : Prop where
  sound : ∀ {s}, I s → s.Sound
  ticked : ∀ {s}, I s → I s.ticked
  cleared : ∀ {s}, I s → I { s with doorbell := 0 }
  turned : ∀ {s rout}, I s → rout < s.responseRing.capacity → I (published { s with rout })

/-! ### Results -/

theorem resultOfCode_ok {code : UInt32} {copied count : Nat} (h : resultOfCode code copied = .ok count) :
    count = copied := by
  unfold resultOfCode at h
  split at h <;> simp_all

/-- Without polls for data words, an attempt copies none. -/
def Plausible (timing : Timing) (a : Attempt) : Prop :=
  timing.dataPolls = 0 → ∀ count, a.result = .ok count → count = 0

theorem plausible_error (timing : Timing) (e : MailboxError) (copied : List UInt32) :
    Plausible timing { result := .error e, copied } := by
  rintro _ count ⟨⟩

/-! ### Accesses -/

variable {I : EmulatedSdm → Prop} (hI : Steady I) (timing : Timing)

theorem keeps_read (I : EmulatedSdm → Prop) (offset : UInt32) :
    Keeps I ((host timing).read offset) Whatever := by
  intro s hs
  exact ⟨_, s, returns_read timing offset s, hs, trivial⟩

theorem keeps_log (I : EmulatedSdm → Prop) (e : MailboxEvent) :
    Keeps I ((host timing).log e) Whatever := by
  intro s hs
  exact ⟨(), s, returns_log timing e s, hs, trivial⟩

theorem keeps_orAbort (I : EmulatedSdm → Prop) (a : α) :
    Keeps I (liftM (orAbort (some a))) Whatever := by
  intro s hs
  exact ⟨a, s, .orAbort a s, hs, trivial⟩

theorem keeps_commandCursor (I : EmulatedSdm → Prop) :
    Keeps I ((host timing).cursor (host timing).commandRing (host timing).map.commandIn) Whatever :=
  (keeps_read timing I _).bind fun _ _ => keeps_orAbort I _

theorem keeps_responseCursor (I : EmulatedSdm → Prop) : Keeps I (host timing).responseCursor Whatever :=
  (keeps_read timing I _).bind fun _ _ => keeps_orAbort I _

theorem keeps_responsePending (I : EmulatedSdm → Prop) (rout : Nat) :
    Keeps I ((host timing).responsePending rout) Whatever := by
  refine .bind ((keeps_read timing I _).bind fun _ _ => keeps_orAbort I _) fun _ _ => ?_
  exact .pure trivial

theorem keeps_unread (I : EmulatedSdm → Prop) (reading : Option Nat) :
    Keeps I ((host timing).unread reading) Whatever := by
  cases reading with
  | none => exact .pure trivial
  | some rout =>
    refine (keeps_responsePending timing I rout).bind fun pending _ => ?_
    cases pending <;> exact .pure trivial

namespace Steady

include hI

theorem delay (micros : Nat) : Keeps I ((host timing).delay micros) Whatever := by
  intro s hs
  exact ⟨(), _, returns_delay (hI.sound hs) micros, hI.ticked hs, trivial⟩

theorem clear : Keeps I ((host timing).write (host timing).map.doorbellFromSdm 0) Whatever := by
  intro s hs
  exact ⟨(), _, returns_clear (hI.sound hs), hI.cleared hs, trivial⟩

theorem turn (value : UInt32) :
    Keeps I ((host timing).write (host timing).map.responseOut value) Whatever := by
  show Keeps I (writeRegister ({} : RegisterMap).responseOut value) Whatever
  unfold writeRegister
  refine Keeps.get fun s hs => ?_
  have hsound := hI.sound hs
  have hturned : s.responseRing.wrap value.toNat < s.responseRing.capacity :=
    Ring.wrap_lt (by have := hsound.rout; omega) _
  rw [if_neg (by rw [hsound.map]; decide), if_pos (by rw [hsound.map]), hsound.whenSlotted_response]
  refine ⟨_, _, (Returns.orAbort _ s).bind <| (Returns.set _ _).bind (returns_publish ?_),
    hI.turned hs hturned, trivial⟩
  exact ⟨hsound.map, hsound.cin, hsound.cout, hsound.rin, hturned, hsound.commandCells,
    hsound.responseCells⟩

/-! ### Collecting -/

theorem takeDoorbell : Keeps I (host timing).takeDoorbell Whatever := by
  refine (keeps_read timing I _).bind fun value _ => ?_
  split
  · exact .pure trivial
  · exact (hI.clear timing).bind fun _ _ => .pure trivial

theorem waitDoorbell (budget : Nat) : Tries I ((host timing).waitDoorbell budget) Whatever := by
  induction budget with
  | zero => exact (Tries.lift (keeps_log timing I _)).bind fun _ _ => .throw _
  | succ budget ih =>
    refine (Tries.lift (hI.takeDoorbell timing)).bind fun raised _ => ?_
    cases raised with
    | true => exact .pure trivial
    | false => exact (Tries.lift (hI.delay timing _)).bind fun _ _ => ih

theorem readWord (rout : Nat) : Keeps I ((host timing).readWord rout) Whatever :=
  (keeps_read timing I _).bind fun _ _ => (hI.turn timing _).bind fun _ _ => .pure trivial

/-- A driver that does not poll for data words sees none. -/
theorem waitWord (rout : Nat) :
    Keeps I ((host timing).waitWord rout) fun came => timing.dataPolls = 0 → came = false := by
  show Keeps I (waitWord.go (host timing) rout timing.dataPolls) _
  cases hpolls : timing.dataPolls with
  | zero => exact (keeps_log timing I _).bind fun _ _ => .pure fun _ => rfl
  | succ polls =>
    have loop : ∀ polls, Keeps I (waitWord.go (host timing) rout polls) Whatever := by
      intro polls
      induction polls with
      | zero => exact (keeps_log timing I _).bind fun _ _ => .pure trivial
      | succ polls ih =>
        refine (keeps_responsePending timing I rout).bind fun pending _ => ?_
        cases pending with
        | true => exact .pure trivial
        | false => exact (hI.delay timing _).bind fun _ _ => ih
    exact (loop (polls + 1)).mono fun _ _ h => absurd h (Nat.succ_ne_zero polls)

theorem readData (rout count : Nat) : Keeps I ((host timing).readData rout count)
    fun (data, _) => timing.dataPolls = 0 → data = [] := by
  induction count generalizing rout with
  | zero => exact .pure fun _ => rfl
  | succ count ih =>
    refine (hI.waitWord timing rout).bind fun came hcame => ?_
    cases came with
    | false => exact .pure fun _ => rfl
    | true =>
      refine (hI.readWord timing rout).bind fun (word, next) _ => ?_
      refine (ih next).bind fun (rest, last) _ => ?_
      exact .pure fun hp => absurd (hcame hp) (by decide)

theorem takeResponse (opcode : UInt32) (room rout : Nat) :
    Keeps I ((host timing).takeResponse opcode room rout)
      fun r => ∀ a, r = .error a → Plausible timing a := by
  unfold Mailbox.takeResponse
  refine (hI.readWord timing rout).bind fun (word, next) _ => ?_
  refine (hI.readData timing next _).bind fun (data, last) hdata => ?_
  simp only
  cases last with
  | none =>
    refine .pure ?_
    rintro _ ⟨⟩
    exact plausible_error timing _ _
  | some rout =>
    cases (ResponseHeader.mk word).answers (host timing).client (host timing).transaction with
    | true =>
      refine (keeps_log timing I _).bind fun _ _ => .pure ?_
      rintro _ ⟨⟩ hp count hcount
      rw [resultOfCode_ok hcount, hdata hp]
      simp
    | false =>
      refine (keeps_log timing I _).bind fun _ _ => .pure ?_
      rintro _ ⟨⟩

theorem collect (opcode : UInt32) (room budget : Nat) (reading : Option Nat) :
    Keeps I ((host timing).collect opcode room budget reading) (Plausible timing) := by
  induction budget generalizing reading with
  | zero =>
    unfold Mailbox.collect
    refine (keeps_unread timing I reading).bind fun unread _ => ?_
    cases unread with
    | none => exact (keeps_log timing I _).bind fun _ _ => .pure (plausible_error timing _ _)
    | some rout =>
      refine (hI.takeResponse timing opcode room rout).bind fun r hr => ?_
      cases r with
      | error a => exact .pure (hr a rfl)
      | ok _ => exact (keeps_log timing I _).bind fun _ _ => .pure (plausible_error timing _ _)
  | succ budget ih =>
    rw [Mailbox.collect]
    refine (keeps_unread timing I reading).bind fun unread _ => ?_
    cases unread with
    | none =>
      refine (hI.takeDoorbell timing).bind fun raised _ => ?_
      cases raised with
      | true => exact (keeps_responseCursor timing I).bind fun rout _ => ih (some rout)
      | false => exact (hI.delay timing _).bind fun _ _ => ih none
    | some rout =>
      refine (hI.takeResponse timing opcode room rout).bind fun r hr => ?_
      cases r with
      | error a => exact .pure (hr a rfl)
      | ok rout => exact ih (some rout)

/-! ### Taking whatever is there -/

theorem waitResponse : Tries I (host timing).waitResponse Whatever := by
  refine (hI.waitDoorbell timing _).bind fun _ _ => ?_
  refine (Tries.lift (keeps_responseCursor timing I)).bind fun rout _ => ?_
  exact .lift (keeps_responsePending timing I rout)

theorem receive (room : Nat) : Keeps I ((host timing).receive room) Whatever := by
  have loop : ∀ room rout, Keeps I (receive.go (host timing) room rout) Whatever := by
    intro room
    induction room with
    | zero => exact fun _ => .pure trivial
    | succ room ih =>
      intro rout
      unfold receive.go
      refine (keeps_responsePending timing I rout).bind fun pending _ => ?_
      cases pending with
      | false => exact .pure trivial
      | true =>
        refine (hI.readWord timing rout).bind ?_
        rintro ⟨word, next⟩ -
        exact (ih next).bind fun _ _ => .pure trivial
  refine (hI.takeDoorbell timing).discard.bind fun _ _ => ?_
  exact (keeps_responseCursor timing I).bind fun rout _ => loop room rout

theorem drain (limit : Nat) : Keeps I ((host timing).drain limit) Whatever := by
  have loop : ∀ limit done rout, Keeps I (drain.go (host timing) limit done rout) Whatever := by
    intro limit
    induction limit with
    | zero => exact fun _ _ => .pure trivial
    | succ limit ih =>
      intro done rout
      unfold drain.go
      refine (keeps_responsePending timing I rout).bind fun pending _ => ?_
      cases pending with
      | false => exact .pure trivial
      | true =>
        refine (hI.readWord timing rout).bind fun (word, next) _ => ?_
        refine (hI.readData timing next _).bind fun (data, last) _ => ?_
        cases last with
        | none => exact .pure trivial
        | some rout => exact (keeps_log timing I _).bind fun _ _ => ih _ rout
  refine (hI.takeDoorbell timing).discard.bind fun _ _ => ?_
  exact (keeps_responseCursor timing I).bind fun rout _ => loop limit 0 rout

/-! ### Whole calls -/

variable {opcode : UInt32} {arguments : List UInt32}

theorem attempt (h : Tries I ((host timing).sendCommand opcode false arguments) Whatever) (room : Nat) :
    Keeps I ((host timing).attempt opcode arguments false room) (Plausible timing) := by
  unfold Mailbox.attempt
  refine h.run.bind fun r _ => ?_
  cases r with
  | error e => exact .pure (plausible_error timing e _)
  | ok _ => exact hI.collect timing opcode room _ none

section Send

variable {n : Nat} {urgent : Bool}
  (h : Keeps I ((host timing).attempt opcode arguments urgent n) (Plausible timing))
include h

/-- One attempt, and what follows if it may be repeated. -/
theorem send_try (number : Nat) (buffer : Vector UInt32 n)
    (again : MailboxError → Vector UInt32 n →
      RegisterM EmulatedSdm (Except MailboxError Nat × Vector UInt32 n))
    (hagain : ∀ e buffer, Keeps I (again e buffer)
      fun (r, _) => timing.dataPolls = 0 → ∀ count, r = Except.ok count → count = 0) :
    Keeps I (do
      let a ← (host timing).attempt opcode arguments urgent n
      let buffer := overlay buffer a.copied
      match a.result with
      | .ok count => return (.ok count, buffer)
      | .error e =>
        unless e.isTransient do return (.error e, buffer)
        (host timing).log (.attemptFailed opcode number e)
        (host timing).delay (host timing).timing.backoff
        again e buffer)
      fun (r, _) => timing.dataPolls = 0 → ∀ count, r = Except.ok count → count = 0 := by
  refine h.bind fun a ha => ?_
  simp only
  cases hresult : a.result with
  | ok count => exact .pure fun hp _ hcount => ha hp _ (hresult.trans hcount)
  | error e =>
    simp only
    split
    · exact (keeps_log timing I _).bind fun _ _ => (hI.delay timing _).bind fun _ _ => hagain e _
    · refine .pure ?_
      rintro - count ⟨⟩

theorem send (buffer : Vector UInt32 n) : Keeps I ((host timing).send opcode arguments urgent buffer)
    fun (r, _) => timing.dataPolls = 0 → ∀ count, r = Except.ok count → count = 0 := by
  have loop : ∀ more number buffer, Keeps I (send.go (n := n) (host timing) opcode arguments urgent
      more number buffer) fun (r, _) => timing.dataPolls = 0 → ∀ count, r = .ok count → count = 0 := by
    intro more
    induction more with
    | zero =>
      intro number buffer
      unfold send.go
      refine hI.send_try timing h number buffer (fun e buffer => pure (.error e, buffer)) fun e buffer => ?_
      refine .pure ?_
      rintro - count ⟨⟩
    | succ more ih =>
      intro number buffer
      unfold send.go
      exact hI.send_try timing h number buffer
        (fun _ => send.go (host timing) opcode arguments urgent more (number + 1)) fun e buffer => ih _ _
  exact loop _ _ _

end Send

end Steady

end Mailbox

end RemoteUpdate
