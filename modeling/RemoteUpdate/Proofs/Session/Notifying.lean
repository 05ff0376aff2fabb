import RemoteUpdate.Proofs.Mailbox.Persisting
import RemoteUpdate.Proofs.Session.BootSelection

/-!
# The update status and notifications

A device manager with which nothing goes wrong carries a request out in the first attempt. What a session then
shows as the update status is what the words that arrived say (`UpdateStatus.delivered`), with the version that
an old report leaves at 0 raised to 1 (`Shown`). An action is refused exactly if that version is 0, and if not,
it changes those fields of the status that it is for and records no stage; a notification records its stage
and changes no field.
-/

namespace RemoteUpdate

open EmulatedSdm

/-! ### A status of which some words arrive -/

namespace UpdateStatus

/-- The status of which only the first words arrive, with defaults for the rest. -/
def delivered (st : UpdateStatus) (count : ℕ) : UpdateStatus :=
  .ofWords <| .ofFn fun i => if (i : ℕ) < count then st.toWords.get i else ({} : UpdateStatus).toWords.get i

theorem length_toWords (st : UpdateStatus) : st.toWords.toList.length = updateStatusWords :=
  Vector.length_toList

/-- A buffer of defaults over which the first words are put holds the words that are delivered. -/
theorem ofWords_overlay (st : UpdateStatus) (count : ℕ) :
    ofWords (overlay ({} : UpdateStatus).toWords (st.toWords.toList.take count)) = st.delivered count := by
  unfold delivered
  congr 1
  refine Vector.ext fun i hi => ?_
  have hlength := st.length_toWords
  rw [getElem_overlay _ _ hi, Vector.getElem_ofFn, List.getD_eq_getElem?_getD, List.getElem?_take]
  by_cases hcount : i < count
  · rw [if_pos hcount, if_pos hcount, List.getElem?_eq_getElem (hlength.symm ▸ hi), Option.getD_some,
      Vector.getElem_toList]
    rfl
  · rw [if_neg hcount, if_neg hcount]
    rfl

/-- The retry counter is the last word, so it arrives only with all of them. -/
theorem hasRetryCounter_delivered (st : UpdateStatus) (count : ℕ) :
    (st.delivered count).hasRetryCounter = true ↔
      updateStatusWords ≤ count ∧ st.retryCounter ≠ retryCounterUnset := by
  have hcounter : (st.delivered count).retryCounter =
      if 8 < count then st.retryCounter else retryCounterUnset := rfl
  have hwords : updateStatusWords ≤ count ↔ 8 < count := Iff.rfl
  unfold hasRetryCounter
  rw [hcounter, hwords, bne_iff_ne]
  split
  next h => exact ⟨fun hne => ⟨h, hne⟩, And.right⟩
  next h => exact ⟨fun hne => absurd rfl hne, fun hcount => absurd hcount.1 h⟩

/-- What a driver shows of a status of which the first words have arrived. -/
structure Shown (st : UpdateStatus) (count : ℕ) (shown : UpdateStatus) : Prop where
  /-- The version is raised to 1 exactly if it is 0 and the retry counter has arrived and is one. -/
  application : shown.applicationVersion =
    if (st.delivered count).applicationVersion = 0 ∧ updateStatusWords ≤ count ∧
        st.retryCounter ≠ retryCounterUnset then 1
    else (st.delivered count).applicationVersion
  /-- The other bits of the version word are those that have arrived. -/
  version : ∀ i, i < 8 ∨ 16 ≤ i →
    shown.version.toBitVec.getLsbD i = (st.delivered count).version.toBitVec.getLsbD i
  others : { shown with version := (st.delivered count).version } = st.delivered count

theorem application_fits : VersionField.application.Fits := by
  decide

theorem shown_raiseLegacyVersion (st : UpdateStatus) (count : ℕ) :
    st.Shown count (st.delivered count).raiseLegacyVersion := by
  have hcounter := st.hasRetryCounter_delivered count
  unfold raiseLegacyVersion
  by_cases h : (st.delivered count).applicationVersion = 0 ∧ updateStatusWords ≤ count ∧
      st.retryCounter ≠ retryCounterUnset
  · have hraised : ((st.delivered count).hasRetryCounter &&
        (st.delivered count).applicationVersion == 0) = true := by
      rw [Bool.and_eq_true, beq_iff_eq]
      exact ⟨hcounter.mpr h.2, h.1⟩
    rw [if_pos hraised]
    refine ⟨?_, fun i hi => ?_, rfl⟩
    · rw [if_pos h]
      exact BitField.get_set_self application_fits
    · have houtside : ¬ VersionField.application.Covers i := by
        show ¬ (8 ≤ i ∧ i < 16)
        omega
      exact (BitField.stored_set application_fits _ _).others i houtside
  · have hkept : ¬ ((st.delivered count).hasRetryCounter &&
        (st.delivered count).applicationVersion == 0) = true := by
      rw [Bool.and_eq_true, beq_iff_eq]
      exact fun hraised => h ⟨hraised.2, hcounter.mp hraised.1⟩
    rw [if_neg hkept]
    refine ⟨?_, fun _ _ => rfl, rfl⟩
    rw [if_neg h]

end UpdateStatus

/-! ### Requests with nothing in the way -/

/-- The device manager is at rest, not busy, and no failures are planned; the driver waits long enough. -/
structure Calm (timing : Timing) (s : EmulatedSdm) : Prop where
  ready : Mailbox.Ready timing s
  free : s.busy = 0
  failures : ∀ f ∈ s.failures, f.remaining = 0
  polls : 0 < timing.commandPolls

/-- From `s` to `t` nothing that the device manager knows has changed but its status and the stages reported
to it. -/
structure Retains (timing : Timing) (s t : EmulatedSdm) (st : UpdateStatus) (reported : List UInt32) :
    Prop where
  status : t.updateStatus = st
  stages : t.stages = reported
  others : t.memory = { s.memory with updateStatus := st, stages := reported }
  calm : Calm timing t

variable {timing : Timing} {s t u : EmulatedSdm}

/-- What is remembered tells the status and the stages. -/
theorem retains_of_memory {st : UpdateStatus} {reported : List UInt32}
    (h : t.memory = { s.memory with updateStatus := st, stages := reported }) (hcalm : Calm timing t) :
    Retains timing s t st reported where
  status := by
    have hstatus := congrArg EmulatedSdm.updateStatus h
    exact hstatus
  stages := by
    have hstages := congrArg EmulatedSdm.stages h
    exact hstages
  others := h
  calm := hcalm

theorem Calm.not_injected (h : Calm timing s) (c : LoggedCommand) : ¬ Injected c s := by
  rintro (hbusy | hfails)
  · exact hbusy.ne' h.free
  · rw [takeFailure_eq_none h.failures] at hfails
    cases hfails

namespace Mailbox

variable {room : ℕ}

/-- The request is carried out in the first attempt. -/
theorem request_calm (h : Calm timing s) (command : Command) (arguments : List UInt32)
    (harguments : arguments.length < 31) (buffer : Vector UInt32 room) :
    ∃ t, Ends ((host timing).request command arguments buffer) s
        ((resultOfCode (handled command.opcode arguments s).2.1.value
          (min room (handled command.opcode arguments s).2.2.length)).map
            fun count => (count, overlay buffer (handled command.opcode arguments s).2.2)) t ∧
      t.memory = (handled command.opcode arguments s).1.memory ∧ Calm timing t := by
  have hheader : (LoggedCommand.fromHost command.opcode arguments).header.opcode = command.opcode :=
    CommandHeader.opcode_make command.opcode_le
  have hwords : (LoggedCommand.fromHost command.opcode arguments).words.length ≤ 31 := harguments
  obtain ⟨k, t, hpersists⟩ := go_persists (timing.retries - 1) 1 buffer h.ready command.opcode_le
    (harguments.le.trans (by decide)) (.inr ⟨h.polls, hwords⟩)
  have hcarried := replied_carried (h.not_injected (.fromHost command.opcode arguments))
  rw [hheader] at hcarried
  -- an answer that asks for another attempt would have been injected
  obtain rfl : k = 0 := by
    by_contra hk
    exact h.not_injected _ (injected_of_transient (hpersists.first.before 0 (Nat.pos_of_ne_zero hk)))
  have hbare : t.bare = (executed (.fromHost command.opcode arguments) s).bare :=
    hpersists.executions.bare
  have hmemory : t.memory = (handled command.opcode arguments s).1.memory := by
    rw [memory_congr hbare]
    have := congrArg (fun r => r.1.memory) hcarried
    exact this
  have hbusy : t.busy = (replied (.fromHost command.opcode arguments) s).1.busy := by
    have := congrArg EmulatedSdm.busy hbare
    exact this
  have hreturns := hpersists.returns
  have hanswer : answerAfter (.fromHost command.opcode arguments) s 0 =
      answer (.fromHost command.opcode arguments) s := rfl
  have hdata : (answer (.fromHost command.opcode arguments) s).data =
      (replied (.fromHost command.opcode arguments) s).2.2 := rfl
  rw [hanswer, code_answer, hdata, hcarried, code_named] at hreturns
  refine ⟨t, ends_request_of_send hreturns, hmemory, hpersists.executions.ready, ?_, ?_, h.polls⟩
  · exact Nat.le_zero.mp (h.free ▸ hbusy.trans_le (busy_replied _ s))
  · have hfailures := (failures_congr hmemory).trans (handled_faults command.opcode arguments s).2
    exact hfailures ▸ h.failures

theorem updateStatus_calm (h : Calm timing s) :
    ∃ t, Ends (host timing).updateStatus s
        (.ok (s.updateStatus.delivered s.statusWords).raiseLegacyVersion) t ∧
      Retains timing s t s.updateStatus s.stages := by
  obtain ⟨t, hrequest, hmemory, hcalm⟩ :=
    request_calm h .updateStatus [] (by decide) ({} : UpdateStatus).toWords
  have hhandled : handled Command.updateStatus.opcode [] s =
      (s, .ok, s.updateStatus.toWords.toList.take s.statusWords) := rfl
  rw [hhandled] at hrequest hmemory
  refine ⟨t, ?_, retains_of_memory hmemory hcalm⟩
  rw [← UpdateStatus.ofWords_overlay]
  exact hrequest.bind <| (Ends.lift (returns_log timing _ t)).bind (.pure _ t)

theorem notifyStage_calm (h : Calm timing s) (value : UInt32) :
    ∃ t, Ends ((host timing).notifyStage value) s (.ok ()) t ∧ t.memory = (notified value s).memory ∧
      Calm timing t := by
  obtain ⟨t, hrequest, hmemory, hcalm⟩ :=
    request_calm h .stageNotify [value] (show 1 < 31 by decide) noData
  exact ⟨t, hrequest.discard_ok, hmemory, hcalm⟩

end Mailbox

namespace EmulatedSdm

/-! ### What the parts of a notification do -/

theorem notified_stage (value : UInt32) (s : EmulatedSdm) :
    notified (value &&& Notify.stageMask) s = { s with stages := s.stages ++ [value % 0x10000] } := by
  have hflag (flag : UInt32) (h : Notify.stageMask &&& flag = 0) :
      value &&& Notify.stageMask &&& flag = 0 := by
    rw [UInt32.and_assoc, h, UInt32.and_zero]
  have hstage : value &&& Notify.stageMask &&& Notify.stageMask = value % 0x10000 := by
    have hmask : Notify.stageMask.toNat = 2 ^ 16 - 1 := rfl
    rw [UInt32.and_assoc, UInt32.and_self]
    apply UInt32.toNat_inj.mp
    rw [UInt32.toNat_and, hmask, Nat.and_two_pow_sub_one_eq_mod, UInt32.toNat_mod]
    rfl
  unfold notified
  rw [hflag Notify.clearError rfl, hflag Notify.resetRetries rfl, hflag Notify.ignoreStage rfl, hstage]
  rfl

theorem notified_clearError (s : EmulatedSdm) :
    notified (Notify.ignoreStage ||| Notify.clearError) s =
      { s with updateStatus :=
        { s.updateStatus with failImage := 0, state := 0, errorLocation := 0, errorDetails := 0 } } := rfl

theorem notified_resetRetries (s : EmulatedSdm) :
    notified (Notify.ignoreStage ||| Notify.resetRetries) s =
      { s with updateStatus := { s.updateStatus with retryCounter := 0 } } := rfl

end EmulatedSdm

namespace Session

variable {φ : Type} {c : Session EmulatedSdm} {s : SessionState EmulatedSdm φ}

/-- A program of the mailbox in a session, which leaves all else in the session alone. -/
theorem ends_onMailbox_withRegisters {α : Type} {x : MailboxM EmulatedSdm α} {a : α} {sdm : EmulatedSdm}
    (h : Ends x s.channel.registers (.ok a) sdm) :
    Ends (onMailbox x) s (.ok a) (s.withRegisters sdm) :=
  ends_onMailbox h

/-- What the driver shows. -/
def shownStatus (s : SessionState EmulatedSdm φ) : UpdateStatus :=
  (s.channel.registers.updateStatus.delivered s.channel.registers.statusWords).raiseLegacyVersion

theorem status_calm (hmailbox : c.mailbox = Mailbox.host timing) (h : Calm timing s.channel.registers) :
    ∃ sdm, Ends c.status s (.ok (shownStatus s)) (s.withRegisters sdm) ∧
      Retains timing s.channel.registers sdm s.channel.registers.updateStatus s.channel.registers.stages := by
  obtain ⟨sdm, hstatus, hretains⟩ := Mailbox.updateStatus_calm h
  unfold status
  rw [hmailbox]
  exact ⟨sdm, ends_onMailbox_withRegisters hstatus, hretains⟩

/-- An action is refused exactly if the version shown is 0, which changes nothing; and if not, the device
manager does what it is for. -/
theorem notifyAction_calm (hmailbox : c.mailbox = Mailbox.host timing) (h : Calm timing s.channel.registers)
    (action : UInt32) (done : UpdateStatus)
    (hdone : ∀ sdm : EmulatedSdm, sdm.updateStatus = s.channel.registers.updateStatus →
      notified (Notify.ignoreStage ||| action) sdm = { sdm with updateStatus := done }) :
    ∃ sdm, Ends (c.notifyAction action) s
        (if (shownStatus s).applicationVersion = 0 then .error .unsupported else .ok ()) (s.withRegisters sdm) ∧
      Retains timing s.channel.registers sdm
        (if (shownStatus s).applicationVersion = 0 then s.channel.registers.updateStatus else done)
        s.channel.registers.stages := by
  -- whether the action is supported is read off the status first, so the SDM answers twice if it is
  obtain ⟨asked, hstatus, hretains⟩ := status_calm hmailbox h
  unfold notifyAction
  by_cases hversion : (shownStatus s).applicationVersion = 0
  · rw [if_pos hversion, if_pos hversion]
    refine ⟨asked, hstatus.bind ?_, hretains⟩
    rw [hversion, if_pos (by decide)]
    exact (ends_log _ _).bind (Ends.throw _ _).bind_error
  · have hless : ¬ (shownStatus s).applicationVersion < 1 := by
      rw [UInt32.lt_iff_toNat_lt]
      have hne : (shownStatus s).applicationVersion.toNat ≠ 0 := fun hzero => hversion (UInt32.toNat_inj.mp hzero)
      show ¬ _ < 1
      omega
    rw [if_neg hversion, if_neg hversion]
    have hcalm : Calm timing (s.withRegisters asked).channel.registers := hretains.calm
    obtain ⟨sdm, hnotify, hmemory, hquiet⟩ := Mailbox.notifyStage_calm hcalm (Notify.ignoreStage ||| action)
    have hsent : Ends (onMailbox (c.mailbox.notifyStage (Notify.ignoreStage ||| action)))
        (s.withRegisters asked) (.ok ()) ((s.withRegisters asked).withRegisters sdm) := by
      rw [hmailbox]
      exact ends_onMailbox_withRegisters hnotify
    refine ⟨sdm, hstatus.bind ?_, retains_of_memory ?_ hquiet⟩
    · simp only [if_neg hless]
      exact (Ends.pure _ _).bind hsent
    · rw [hmemory, show (s.withRegisters asked).channel.registers = asked from rfl,
        hdone asked hretains.status]
      have hothers := congrArg (fun m : EmulatedSdm => { m with updateStatus := done }) hretains.others
      exact hothers

/-- What is logged after an action changes nothing. -/
theorem ends_action {x : SessionM EmulatedSdm φ Unit} {r : Except UpdateError Unit}
    {t : SessionState EmulatedSdm φ} (e : SessionEvent) (h : Ends x s r t) :
    Ends (x >>= fun _ => log e) s r t := by
  cases r with
  | ok _ => exact h.bind (ends_log e t)
  | error failure => exact h.bind_error

/-- What a session does with the update status of a device manager with which nothing goes wrong. The status
shown is what has arrived, with the version of old firmware raised. By that version the two actions are
refused, or change the fields that they are for and no others; a notification appends its lower half to the
stages. What else the device manager knows, and all else in the session, is left alone. -/
theorem status_and_notifications (c : Session EmulatedSdm) (timing : Timing) (s : SessionState EmulatedSdm φ)
    (hmailbox : c.mailbox = Mailbox.host timing) (h : Calm timing s.channel.registers) :
    let sdm := s.channel.registers
    let st := sdm.updateStatus
    ∃ shown : UpdateStatus, st.Shown sdm.statusWords shown ∧
      (∃ t, Ends c.status s (.ok shown) (s.withRegisters t) ∧ Retains timing sdm t st sdm.stages) ∧
      (∃ t, Ends c.clearError s (if shown.applicationVersion = 0 then .error .unsupported else .ok ())
          (s.withRegisters t) ∧
        Retains timing sdm t (if shown.applicationVersion = 0 then st
          else { st with failImage := 0, state := 0, errorLocation := 0, errorDetails := 0 }) sdm.stages) ∧
      (∃ t, Ends c.resetRetries s (if shown.applicationVersion = 0 then .error .unsupported else .ok ())
          (s.withRegisters t) ∧
        Retains timing sdm t (if shown.applicationVersion = 0 then st else { st with retryCounter := 0 })
          sdm.stages) ∧
      ∀ value : UInt32, ∃ t, Ends (c.notify value) s (.ok ()) (s.withRegisters t) ∧
        Retains timing sdm t st (sdm.stages ++ [value % 0x10000]) := by
  intro sdm st
  refine ⟨shownStatus s, st.shown_raiseLegacyVersion sdm.statusWords, status_calm hmailbox h, ?_, ?_,
    fun value => ?_⟩
  · -- both actions are one request with a bit of its own, and differ in the fields they reset
    obtain ⟨t, haction, hretains⟩ := notifyAction_calm hmailbox h Notify.clearError
      { st with failImage := 0, state := 0, errorLocation := 0, errorDetails := 0 }
      fun told htold => by rw [notified_clearError, htold]
    exact ⟨t, ends_action _ haction, hretains⟩
  · obtain ⟨t, haction, hretains⟩ := notifyAction_calm hmailbox h Notify.resetRetries
      { st with retryCounter := 0 } fun told htold => by rw [notified_resetRetries, htold]
    exact ⟨t, ends_action _ haction, hretains⟩
  · obtain ⟨t, hnotify, hmemory, hcalm⟩ := Mailbox.notifyStage_calm h (value &&& Notify.stageMask)
    rw [notified_stage] at hmemory
    refine ⟨t, ?_, retains_of_memory hmemory hcalm⟩
    unfold notify
    rw [hmailbox]
    exact ends_onMailbox_withRegisters hnotify

/-- A device manager whose firmware reports the version 0 and so many attempts, after two responses to
others. -/
def legacy (attempts : UInt32) : EmulatedSdm :=
  { (fresh {}) with
    strays := 2
    stages := [7]
    updateStatus :=
      { currentImage := 0x10000, failImage := 0x20000, state := 0xf006, version := 0xf0ff0003
        retryCounter := attempts } }

theorem calm_legacy (attempts : UInt32) : Calm {} (legacy attempts) := by
  have hfresh := Mailbox.sound_fresh
  have hsound : (legacy attempts).Sound := ⟨hfresh.map, hfresh.cin, hfresh.cout, hfresh.rin, hfresh.rout,
    hfresh.commandCells, hfresh.responseCells⟩
  have hquiet : (fresh {}).queue = [] := rfl
  exact ⟨⟨⟨hsound, rfl, rfl, rfl, rfl⟩, hquiet, rfl, show 2 + 0 + 4 ≤ 1000 by decide, by decide⟩, rfl, nofun,
    by decide⟩

/-- Three attempts tell that the firmware is not as old as it says, and its failure is forgotten; as many as
the counter can hold do not count as any. -/
theorem status_and_notifications_legacy :
    (∃ t, Ends hostSession.clearError (hostState.withRegisters (legacy 3)) (.ok ())
        (hostState.withRegisters t) ∧
      t.updateStatus = { currentImage := 0x10000, version := 0xf0ff0003, retryCounter := 3 } ∧
      t.stages = [7]) ∧
    ∃ t, Ends hostSession.clearError (hostState.withRegisters (legacy 0xffffffff)) (.error .unsupported)
        (hostState.withRegisters t) ∧
      t.updateStatus = (legacy 0xffffffff).updateStatus ∧ t.stages = [7] := by
  constructor
  · obtain ⟨shown, hshown, -, ⟨t, hclear, hretains⟩, -⟩ :=
      status_and_notifications hostSession {} (hostState.withRegisters (legacy 3)) rfl (calm_legacy 3)
    have hversion : shown.applicationVersion = 1 := hshown.application.trans (if_pos (by decide))
    rw [if_neg (by rw [hversion]; decide)] at hclear hretains
    exact ⟨t, hclear, hretains.status, hretains.stages⟩
  · obtain ⟨shown, hshown, -, ⟨t, hclear, hretains⟩, -⟩ :=
      status_and_notifications hostSession {} (hostState.withRegisters (legacy 0xffffffff)) rfl
        (calm_legacy 0xffffffff)
    have hversion : shown.applicationVersion = 0 := hshown.application.trans (if_neg (by decide))
    rw [if_pos hversion] at hclear hretains
    exact ⟨t, hclear, hretains.status, hretains.stages⟩

end Session

end RemoteUpdate
