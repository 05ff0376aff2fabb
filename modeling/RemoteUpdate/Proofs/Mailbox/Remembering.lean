import RemoteUpdate.Mailbox.Requests
import RemoteUpdate.Proofs.Mailbox.Packing
import RemoteUpdate.Proofs.Mailbox.Restarting

/-!
# What the device manager remembers

A request to a device manager that is at rest is carried out once or not at all. If the driver says that it
succeeded, the device manager remembers what carrying it out once leaves; if the driver has given up because the
device manager was busy in every attempt, it remembers what it did before. Either way it is at rest again.
-/

namespace RemoteUpdate

open EmulatedSdm

theorem Command.opcode_le (command : Command) : command.opcode ≤ maxOpcode := by
  cases command <;> decide

namespace EmulatedSdm

variable {s t : EmulatedSdm} {c : LoggedCommand} {opcode : UInt32} {arguments : List UInt32}

/-! ### Memories -/

/-- What the device manager knows, apart from the mailbox, the log of commands and what is to go wrong. -/
def memory (s : EmulatedSdm) : EmulatedSdm :=
  let quiet : EmulatedSdm := { s with busy := 0 }
  let whole : EmulatedSdm := { quiet with partialCommand := none }
  whole.dressed blank #[] 0 []

theorem memory_congr (h : t.bare = s.bare) : t.memory = s.memory := by
  have hmemory := congrArg memory h
  exact hmemory

theorem handled_busy (opcode : UInt32) (arguments : List UInt32) (s : EmulatedSdm) (busy : Nat) :
    handled opcode arguments { s with busy } =
      ({ (handled opcode arguments s).1 with busy }, (handled opcode arguments s).2) := by
  unfold handled
  split
  all_goals try rfl
  cases h : s.pendingUpdate <;> simp [rebooted, h]

/-- What carrying out a command comes to depends on nothing but the memory. -/
theorem handled_memory (opcode : UInt32) (arguments : List UInt32) (s : EmulatedSdm) :
    handled opcode arguments s.memory =
      ((handled opcode arguments s).1.memory, (handled opcode arguments s).2) := by
  unfold memory
  simp only
  rw [handled_dressed]
  have h := handled_partial opcode arguments { s with busy := 0 } none
  rw [handled_busy] at h
  rw [h]

theorem handled_congr (opcode : UInt32) (arguments : List UInt32) (h : t.memory = s.memory) :
    (handled opcode arguments t).1.memory = (handled opcode arguments s).1.memory ∧
      (handled opcode arguments t).2 = (handled opcode arguments s).2 := by
  have ht := handled_memory opcode arguments t
  rw [h, handled_memory] at ht
  exact ⟨(congrArg Prod.fst ht).symm, (congrArg Prod.snd ht).symm⟩

/-! ### At rest -/

/-- The device manager has nothing to do and no response is waiting. It does not lose doorbells, no failures
are planned, and neither the strays nor the delay that it has been given take longer than the driver waits. -/
structure Resting (s : EmulatedSdm) : Prop where
  idle : Idle s
  quiet : s.queue = []
  doorbells : s.lostDoorbells = some 0
  failures : ∀ f ∈ s.failures, f.remaining = 0
  soon : s.strays + s.consumeDelay + 4 ≤ ({} : Timing).doorbellPolls

theorem Resting.ticked (h : Resting s) : s.ticked = s :=
  ticked_idle h.idle.stopped (.inl (List.append_eq_nil_iff.mp h.quiet).2)

theorem failures_congr (h : t.memory = s.memory) : t.failures = s.failures := by
  have hfailures := congrArg EmulatedSdm.failures h
  exact hfailures

theorem statusWords_congr (h : t.memory = s.memory) : t.statusWords = s.statusWords := by
  have hwords := congrArg EmulatedSdm.statusWords h
  exact hwords

theorem statusWords_handled (opcode : UInt32) (arguments : List UInt32) (s : EmulatedSdm) :
    (handled opcode arguments s).1.statusWords = s.statusWords := by
  unfold handled
  split
  all_goals try rfl
  cases h : s.pendingUpdate <;> simp [rebooted, h]

/-- An answer is one less for which the device manager is busy. -/
theorem busy_replied (c : LoggedCommand) (s : EmulatedSdm) : (replied c s).1.busy ≤ s.busy := by
  have hhandled : (handled c.header.opcode c.arguments s).1.busy = s.busy := by
    have h := congrArg (fun r => r.1.busy) (handled_busy c.header.opcode c.arguments s s.busy)
    exact h
  unfold replied
  split
  · exact Nat.sub_le s.busy 1
  · cases takeFailure c.header.opcode s.failures with
    | none => exact hhandled.le
    | some taken => exact le_rfl

/-- What a command leaves in the memory. A busy device manager does not carry the command out. -/
theorem memory_replied (c : LoggedCommand) (h : ∀ f ∈ s.failures, f.remaining = 0) :
    0 < s.busy ∧ (replied c s).1.memory = s.memory ∧ (replied c s).2 = (ResponseCode.deviceBusy.value, []) ∨
      (replied c s).1.memory = (handled c.header.opcode c.arguments s).1.memory ∧
        (replied c s).2 = ((handled c.header.opcode c.arguments s).2.1.value,
          (handled c.header.opcode c.arguments s).2.2) := by
  unfold replied
  split
  next hbusy => exact .inl ⟨hbusy, rfl, rfl⟩
  next =>
    rw [takeFailure_eq_none h]
    exact .inr ⟨rfl, rfl⟩

end EmulatedSdm

namespace Mailbox

variable {s t u : EmulatedSdm} {opcode : UInt32} {arguments : List UInt32} {room : Nat}

/-- From `s` to `t` a request has come to an end. -/
structure Ended (s t : EmulatedSdm) : Prop where
  resting : Resting t
  strays : t.strays = 0
  busy : t.busy ≤ s.busy
  consumeDelay : t.consumeDelay = s.consumeDelay
  statusWords : t.statusWords = s.statusWords

theorem Ended.trans (h : Ended s t) (h' : Ended t u) : Ended s u :=
  ⟨h'.resting, h'.strays, h'.busy.trans h.busy, h'.consumeDelay.trans h.consumeDelay,
    h'.statusWords.trans h.statusWords⟩

theorem code_named (code : ResponseCode) : code.value &&& HeaderField.code.mask = code.value := by
  cases code <;> decide

/-- How a command may come out that finds `buffer` to put its answer into: the device manager was busy, or it
has carried the command out once. -/
inductive Once (opcode : UInt32) (arguments : List UInt32) (buffer : Vector UInt32 room) (s : EmulatedSdm) :
    Except MailboxError Nat → Vector UInt32 room → EmulatedSdm → Prop where
  | refused {t : EmulatedSdm} : 0 < s.busy → t.memory = s.memory →
      Once opcode arguments buffer s (.error .busy) buffer t
  | carriedOut {t : EmulatedSdm} : t.memory = (handled opcode arguments s).1.memory →
      Once opcode arguments buffer s
        (resultOfCode (handled opcode arguments s).2.1.value
          (min room (handled opcode arguments s).2.2.length))
        (overlay buffer (handled opcode arguments s).2.2) t

/-- A command does not care for what is not remembered. -/
theorem Once.congr {r : Except MailboxError Nat} {buffer buffer' : Vector UInt32 room}
    (h : Once opcode arguments buffer t r buffer' u) (hmemory : t.memory = s.memory)
    (hbusy : t.busy ≤ s.busy) : Once opcode arguments buffer s r buffer' u := by
  obtain ⟨hhandled, hanswer⟩ := handled_congr opcode arguments hmemory
  cases h with
  | refused hbefore hu => exact .refused (hbefore.trans_le hbusy) (hu.trans hmemory)
  | carriedOut hu =>
    rw [hanswer]
    exact .carriedOut (hu.trans hhandled)

/-- An attempt to send a command to a device manager at rest. -/
theorem attempt_resting (h : Resting s) (hopcode : opcode ≤ maxOpcode)
    (harguments : arguments.length ≤ maxArguments) (buffer : Vector UInt32 room) :
    ∃ (a : Attempt) (r : Except MailboxError Nat) (buffer' : Vector UInt32 room) (t : EmulatedSdm),
      Returns ((host {}).attempt opcode arguments false room) s a t ∧ a.result = r ∧
      overlay buffer a.copied = buffer' ∧ Ended s t ∧ Once opcode arguments buffer s r buffer' t := by
  have hpatient : ({} : Timing).Patient s.consumeDelay := patient_default (by have := h.soon; omega)
  obtain ⟨t, hattempt, hserved⟩ :=
    attempt_served h.idle h.quiet h.doorbells hopcode harguments h.soon (.inl hpatient) (by decide) room
  have hmemory : t.memory = (replied (.fromHost opcode arguments) s).1.memory :=
    memory_congr hserved.bare
  have hbusy : t.bare.busy = (executed (.fromHost opcode arguments) s).bare.busy :=
    congrArg EmulatedSdm.busy hserved.bare
  have hheader : (LoggedCommand.fromHost opcode arguments).header.opcode = opcode :=
    CommandHeader.opcode_make hopcode
  have hresult := result_answeredBy (answer (.fromHost opcode arguments) s) room
  have hoverlay := overlay_answeredBy (answer (.fromHost opcode arguments) s) buffer
  generalize answeredBy (answer (.fromHost opcode arguments) s) room = a at hattempt hresult hoverlay
  have hdata : (answer (.fromHost opcode arguments) s).data =
      (replied (.fromHost opcode arguments) s).2.2 := rfl
  rw [code_answer, hdata] at hresult
  rw [hdata] at hoverlay
  -- a refusal changes no memory at all, and a command neither the failures nor the status words
  have hsame : t.failures = s.failures ∧ t.statusWords = s.statusWords := by
    obtain ⟨-, hbefore, -⟩ | ⟨hafter, -⟩ := memory_replied (.fromHost opcode arguments) h.failures
    · exact ⟨failures_congr (hmemory.trans hbefore), statusWords_congr (hmemory.trans hbefore)⟩
    · exact ⟨(failures_congr (hmemory.trans hafter)).trans (handled_faults _ _ s).2,
        (statusWords_congr (hmemory.trans hafter)).trans (statusWords_handled _ _ s)⟩
  have hended : Ended s t := by
    have hsoon := h.soon
    refine ⟨⟨hserved.idle, hserved.quiet, hserved.doorbells, hsame.1 ▸ h.failures, ?_⟩, hserved.strays,
      hbusy.trans_le (busy_replied _ s), hserved.consumeDelay, hsame.2⟩
    rw [hserved.strays, hserved.consumeDelay]
    omega
  obtain ⟨hrefused, hbefore, hreplied⟩ | ⟨hafter, hreplied⟩ :=
    memory_replied (.fromHost opcode arguments) h.failures
  · rw [hreplied, code_named] at hresult
    rw [hreplied] at hoverlay
    exact ⟨a, _, _, t, hattempt, hresult, hoverlay.trans (overlay_nil buffer), hended,
      .refused hrefused (hmemory.trans hbefore)⟩
  · rw [hheader] at hafter hreplied
    rw [hreplied, code_named] at hresult
    rw [hreplied] at hoverlay
    exact ⟨a, _, _, t, hattempt, hresult, hoverlay, hended, .carriedOut (hmemory.trans hafter)⟩

/-- As long as the device manager is busy, the driver tries again. -/
theorem go_resting (more number : Nat) (h : Resting s) (hopcode : opcode ≤ maxOpcode)
    (harguments : arguments.length ≤ maxArguments) (buffer : Vector UInt32 room) :
    ∃ (r : Except MailboxError Nat) (buffer' : Vector UInt32 room) (t : EmulatedSdm),
      Returns (send.go (host {}) opcode arguments false more number buffer) s (r, buffer') t ∧ Ended s t ∧
      Once opcode arguments buffer s r buffer' t := by
  -- a busy answer leaves the SDM resting again, which is all that the next attempt needs
  induction more generalizing s number with
  | zero =>
    obtain ⟨a, r, buffer', t, hattempt, hresult, hcopied, hended, honce⟩ :=
      attempt_resting h hopcode harguments buffer
    cases honce with
    | refused hbusy hmemory =>
      have hlast : Returns (send.go (host {}) opcode arguments false 0 number buffer) s _ _ :=
        send_last hattempt hended.resting.idle.sound hresult rfl
      rw [hended.resting.ticked, hcopied] at hlast
      exact ⟨_, _, t, hlast, hended, .refused hbusy hmemory⟩
    | carriedOut hmemory =>
      have hgo : Returns (send.go (host {}) opcode arguments false 0 number buffer) s _ t :=
        send_final hattempt hresult (final_handled opcode arguments s _)
      rw [hcopied] at hgo
      exact ⟨_, _, t, hgo, hended, .carriedOut hmemory⟩
  | succ more ih =>
    obtain ⟨a, r, buffer', t, hattempt, hresult, hcopied, hended, honce⟩ :=
      attempt_resting h hopcode harguments buffer
    cases honce with
    | refused hbusy hmemory =>
      obtain ⟨r, buffer', u, hrest, hended', honce⟩ := ih (number + 1) hended.resting
      have hagain : Returns (send.go (host {}) opcode arguments false (more + 1) number buffer) s (r, buffer') u := by
        refine send_again hattempt hended.resting.idle.sound hresult rfl ?_
        rw [hended.resting.ticked, hcopied]
        exact hrest
      exact ⟨r, buffer', u, hagain, hended.trans hended', honce.congr hmemory hended.busy⟩
    | carriedOut hmemory =>
      have hgo : Returns (send.go (host {}) opcode arguments false (more + 1) number buffer) s _ t :=
        send_final hattempt hresult (final_handled opcode arguments s _)
      rw [hcopied] at hgo
      exact ⟨_, _, t, hgo, hended, .carriedOut hmemory⟩

theorem request_resting (command : Command) (arguments : List UInt32) (h : Resting s)
    (harguments : arguments.length ≤ maxArguments) (buffer : Vector UInt32 room) :
    ∃ (r : Except MailboxError Nat) (buffer' : Vector UInt32 room) (t : EmulatedSdm),
      Ends ((host {}).request command arguments buffer) s (r.map fun count => (count, buffer')) t ∧
      Ended s t ∧ Once command.opcode arguments buffer s r buffer' t := by
  obtain ⟨r, buffer', t, hgo, hrest⟩ :=
    go_resting (({} : Timing).retries - 1) 1 h command.opcode_le harguments buffer
  exact ⟨r, buffer', t, ends_request_of_send hgo, hrest⟩

theorem order_resting (command : Command) (arguments : List UInt32) (h : Resting s)
    (harguments : arguments.length ≤ maxArguments) :
    ∃ (r : Except MailboxError Nat) (t : EmulatedSdm),
      Ends ((host {}).order command arguments) s (r.map fun _ => ()) t ∧ Ended s t ∧
      Once command.opcode arguments noData s r noData t := by
  obtain ⟨r, buffer', t, hrequest, hended, honce⟩ := request_resting command arguments h harguments noData
  obtain rfl : buffer' = noData := Vector.ext fun i hi => absurd hi (Nat.not_lt_zero i)
  refine ⟨r, t, ?_, hended, honce⟩
  unfold order
  cases r with
  | ok count => exact Ends.discard_ok hrequest
  | error e => exact Ends.discard_error hrequest

end Mailbox

/-! ### What is to boot -/

/-- The image that is running, and the one asked for at the next reboot. -/
structure Selection where
  current : UInt64
  pending : Option UInt64

def Selection.rebooted (x : Selection) : Selection :=
  ⟨x.pending.getD x.current, none⟩

namespace EmulatedSdm

def selection (s : EmulatedSdm) : Selection :=
  ⟨s.updateStatus.currentImage, s.pendingUpdate⟩

variable {s t : EmulatedSdm}

theorem selection_congr (h : t.memory = s.memory) : t.selection = s.selection := by
  have hselection := congrArg selection h
  exact hselection

theorem selection_rebooted (s : EmulatedSdm) : s.rebooted.selection = s.selection.rebooted := by
  unfold EmulatedSdm.rebooted selection Selection.rebooted
  cases s.pendingUpdate <;> rfl

end EmulatedSdm

theorem currentImage_raiseLegacyVersion (status : UpdateStatus) :
    status.raiseLegacyVersion.currentImage = status.currentImage := by
  unfold UpdateStatus.raiseLegacyVersion
  split <;> rfl

/-- A report of two words is enough to tell which image is running. -/
theorem currentImage_report (buffer : Vector UInt32 updateStatusWords) (status : UpdateStatus) {words : Nat}
    (h : 2 ≤ words) :
    (UpdateStatus.ofWords (overlay buffer (status.toWords.toList.take words))).currentImage =
      status.currentImage := by
  have hlow : (overlay buffer (status.toWords.toList.take words))[0] = lowWord status.currentImage := by
    rw [getElem_overlay buffer _ (by decide), List.getD_eq_getElem?_getD, List.getElem?_take_of_lt (by omega)]
    rfl
  have hhigh : (overlay buffer (status.toWords.toList.take words))[1] = highWord status.currentImage := by
    rw [getElem_overlay buffer _ (by decide), List.getD_eq_getElem?_getD, List.getElem?_take_of_lt (by omega)]
    rfl
  show joinWords _ _ = _
  rw [hlow, hhigh, joinWords_halves]

namespace Mailbox

variable {s t u : EmulatedSdm} {opcode : UInt32} {arguments : List UInt32}

/-- What a request makes of the selection: `f` if it succeeds, and nothing otherwise. -/
inductive Selects (f : Selection → Selection) (s : EmulatedSdm) :
    Except MailboxError Unit → EmulatedSdm → Prop where
  | accepted {t : EmulatedSdm} : t.selection = f s.selection → Selects f s (.ok ()) t
  | refused {e : MailboxError} {t : EmulatedSdm} : t.selection = s.selection → Selects f s (.error e) t

theorem Once.selects {f : Selection → Selection} {r : Except MailboxError Nat}
    {buffer : Vector UInt32 0} (h : Once opcode arguments noData s r buffer t)
    (hhandled : handled opcode arguments s = (u, .ok, [])) (hselection : u.selection = f s.selection) :
    Selects f s (r.map fun _ => ()) t := by
  cases h with
  | refused _ hmemory => exact .refused (selection_congr hmemory)
  | carriedOut hmemory =>
    rw [hhandled] at hmemory ⊢
    exact .accepted ((selection_congr hmemory).trans hselection)

theorem requestUpdate_resting (h : Resting s) (offset : UInt64) :
    ∃ r t, Ends ((host {}).requestUpdate offset) s r t ∧ Ended s t ∧
      Selects (fun x => { x with pending := some offset }) s r t := by
  obtain ⟨r, t, horder, hended, honce⟩ :=
    order_resting .update [lowWord offset, highWord offset] h (show 2 ≤ maxArguments by decide)
  have hjoined : (some (joinWords (lowWord offset) (highWord offset)) : Option UInt64) = some offset := by
    rw [joinWords_halves]
  refine ⟨_, t, (Ends.lift (returns_log {} _ s)).bind horder, hended, honce.selects rfl ?_⟩
  exact congrArg (Selection.mk s.updateStatus.currentImage) hjoined

theorem reboot_resting (h : Resting s) :
    ∃ r t, Ends (host {}).reboot s r t ∧ Ended s t ∧ Selects Selection.rebooted s r t := by
  obtain ⟨r, t, horder, hended, honce⟩ := order_resting .reboot [] h (by decide)
  exact ⟨_, t, (Ends.lift (returns_log {} _ s)).bind horder, hended,
    honce.selects rfl (selection_rebooted s)⟩

theorem updateStatus_resting (h : Resting s) (hwords : 2 ≤ s.statusWords) :
    ∃ r t, Ends (host {}).updateStatus s r t ∧ Ended s t ∧ t.selection = s.selection ∧
      ∀ status, r = .ok status → status.currentImage = s.selection.current := by
  obtain ⟨r, buffer, t, hrequest, hended, honce⟩ :=
    request_resting .updateStatus [] h (by decide) ({} : UpdateStatus).toWords
  have hhandled : handled Command.updateStatus.opcode [] s =
      (s, .ok, s.updateStatus.toWords.toList.take s.statusWords) := rfl
  unfold updateStatus
  cases honce with
  | refused _ hmemory =>
    exact ⟨_, t, hrequest.bind_error, hended, selection_congr hmemory, nofun⟩
  | carriedOut hmemory =>
    rw [hhandled] at hmemory hrequest
    refine ⟨_, t, hrequest.bind <| (Ends.lift (returns_log {} _ t)).bind (.pure _ t), hended,
      selection_congr hmemory, ?_⟩
    rintro _ ⟨⟩
    rw [currentImage_raiseLegacyVersion]
    exact currentImage_report _ s.updateStatus hwords

end Mailbox

end RemoteUpdate
