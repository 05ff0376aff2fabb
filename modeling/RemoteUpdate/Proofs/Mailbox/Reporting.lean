import RemoteUpdate.Proofs.Mailbox.Remembering

/-!
# What the device manager reports

A device manager with which nothing goes wrong may be asked for many things one after the other. What it reports
of itself in between is what it reported when it was switched on: the image that is asked for, the stages that
are reported to it and the failures that it is to forget show in none of its reports before it reboots.
-/

namespace RemoteUpdate

open EmulatedSdm

/-- What a device manager reports of itself. -/
structure Reports where
  status : UpdateStatus
  statusWords : ℕ
  info : DeviceInfo
  tables : Vector UInt32 4

namespace EmulatedSdm

variable {s t : EmulatedSdm}

/-- What the device manager reports. -/
def reports (s : EmulatedSdm) : Reports where
  status := s.updateStatus
  statusWords := s.statusWords
  info := s.deviceInfo
  tables := s.subpartitions

theorem reports_congr (h : t.memory = s.memory) : t.reports = s.reports := by
  have hreports := congrArg reports h
  exact hreports

/-- The device manager is at rest and not busy, and reports what it did when it was switched on. -/
structure AsNew (s : EmulatedSdm) : Prop where
  resting : Resting s
  free : s.busy = 0
  reports : s.reports = (fresh {}).reports

theorem asNew_restarted : AsNew (restarted (fresh {})) :=
  ⟨⟨⟨Mailbox.sound_fresh.restarted, rfl, rfl, rfl, rfl⟩, rfl, rfl, nofun, by decide⟩, rfl, rfl⟩

theorem reports_notified (value : UInt32) (h : s.reports = (fresh {}).reports) :
    (notified value s).reports = s.reports := by
  have hstatus : s.updateStatus = (fresh {}).updateStatus := congrArg Reports.status h
  have hforgotten : (notified value s).updateStatus = s.updateStatus := by
    unfold notified
    rw [hstatus]
    dsimp only
    split <;> split <;> rfl
  unfold reports
  rw [hforgotten]
  rfl

end EmulatedSdm

namespace Mailbox

variable {α β : Type} {room : ℕ} {x : MailboxM EmulatedSdm α} {f : α → MailboxM EmulatedSdm β}

/-- From a device manager that is as new, the program ends with this result, and leaves it as new. -/
def Always (x : MailboxM EmulatedSdm α) (r : Except MailboxError α) : Prop :=
  ∀ s, AsNew s → ∃ t, Ends x s r t ∧ AsNew t

theorem Always.bind {a : α} {r : Except MailboxError β} (h : Always x (.ok a)) (h' : Always (f a) r) :
    Always (x >>= f) r := by
  intro s hs
  obtain ⟨t, hx, ht⟩ := h s hs
  obtain ⟨u, hf, hu⟩ := h' t ht
  exact ⟨u, hx.bind hf, hu⟩

theorem always_pure (a : α) : Always (pure a) (.ok a) :=
  fun s hs => ⟨s, Ends.pure a s, hs⟩

theorem always_log (e : MailboxEvent) : Always (liftM ((host {}).log e)) (.ok ()) :=
  fun s hs => ⟨s, Ends.lift (returns_log {} e s), hs⟩

/-- A command whose answer depends on nothing but what is reported, and does not change that. -/
theorem always_request (command : Command) (arguments : List UInt32) (data : List UInt32)
    (harguments : arguments.length ≤ maxArguments) (buffer : Vector UInt32 room)
    (hhandled : ∀ s : EmulatedSdm, s.reports = (fresh {}).reports →
      (handled command.opcode arguments s).1.reports = s.reports ∧
        (handled command.opcode arguments s).2 = (.ok, data)) :
    Always ((host {}).request command arguments buffer)
      (.ok (min room data.length, overlay buffer data)) := by
  intro s hs
  obtain ⟨hreports, hanswer⟩ := hhandled s hs.reports
  obtain ⟨r, buffer', t, hrequest, hended, honce⟩ :=
    request_resting command arguments hs.resting harguments buffer
  have hfree : t.busy = 0 := Nat.le_zero.mp (hs.free ▸ hended.busy)
  cases honce with
  | refused hbusy _ => exact absurd hs.free hbusy.ne'
  | carriedOut hmemory =>
    rw [hanswer] at hrequest
    exact ⟨t, hrequest, hended.resting, hfree, (reports_congr hmemory).trans (hreports.trans hs.reports)⟩

theorem always_order (command : Command) (arguments : List UInt32)
    (harguments : arguments.length ≤ maxArguments)
    (hhandled : ∀ s : EmulatedSdm, s.reports = (fresh {}).reports →
      (handled command.opcode arguments s).1.reports = s.reports ∧
        (handled command.opcode arguments s).2 = (.ok, [])) :
    Always ((host {}).order command arguments) (.ok ()) := by
  intro s hs
  obtain ⟨t, hrequest, ht⟩ := always_request command arguments [] harguments noData hhandled s hs
  exact ⟨t, hrequest.discard_ok, ht⟩

theorem always_updateStatus : ∃ status, Always (host {}).updateStatus (.ok status) := by
  refine ⟨_, (always_request .updateStatus []
    ((fresh {}).updateStatus.toWords.toList.take (fresh {}).statusWords) (by decide) _
    fun s hs => ⟨rfl, ?_⟩).bind ((always_log _).bind (always_pure _))⟩
  have hstatus : s.updateStatus = (fresh {}).updateStatus := congrArg Reports.status hs
  have hwords : s.statusWords = (fresh {}).statusWords := congrArg Reports.statusWords hs
  show (ResponseCode.ok, s.updateStatus.toWords.toList.take s.statusWords) = _
  rw [hstatus, hwords]

theorem always_notifyStage (value : UInt32) : Always ((host {}).notifyStage value) (.ok ()) :=
  always_order .stageNotify [value] (show 1 ≤ maxArguments by decide) fun _ hs =>
    ⟨reports_notified value hs, rfl⟩

theorem always_requestUpdate (offset : UInt64) : Always ((host {}).requestUpdate offset) (.ok ()) :=
  (always_log _).bind <| always_order .update [lowWord offset, highWord offset]
    (show 2 ≤ maxArguments by decide) fun _ _ => ⟨rfl, rfl⟩

theorem always_deviceInfo : ∃ info, Always (host {}).deviceInfo (.ok info) := by
  refine ⟨_, (always_request .deviceInfo [] (fresh {}).deviceInfo.toWords.toList (by decide) _
    fun s hs => ⟨rfl, ?_⟩).bind ((always_pure ()).bind (always_pure _))⟩
  have hinfo : s.deviceInfo = (fresh {}).deviceInfo := congrArg Reports.info hs
  show (ResponseCode.ok, s.deviceInfo.toWords.toList) = _
  rw [hinfo]

theorem always_subpartitionTable :
    Always (host {}).subpartitionTable (.ok (fresh {}).subpartitions) := by
  refine (always_request .subpartitionTable [] (fresh {}).subpartitions.toList (by decide) _
    fun s hs => ⟨rfl, ?_⟩).bind ((always_pure ()).bind (always_pure _))
  have htables : s.subpartitions = (fresh {}).subpartitions := congrArg Reports.tables hs
  show (ResponseCode.ok, s.subpartitions.toList) = _
  rw [htables]

end Mailbox

end RemoteUpdate
