import RemoteUpdate.Proofs.Mailbox.Remembering

/-!
# Trying again

A driver that is told that the device manager is busy, or that time has run out, sends its command again. An
idle device manager executes the command once for each attempt, and the first answer that says anything else
is the last. All answers before it were injected, and an injected answer leaves what the device manager knows
as it was. So the command is carried out once at most, in the last of its executions.
-/

namespace RemoteUpdate

namespace EmulatedSdm

variable {s t : EmulatedSdm} {c : LoggedCommand} {opcode : UInt32} {arguments : List UInt32}

/-! ### Injected answers -/

/-- What the device manager knows of images and firmware: its memory without the failures that are planned. -/
def firmware (s : EmulatedSdm) : EmulatedSdm :=
  { s.memory with failures := [] }

theorem firmware_congr (h : t.memory = s.memory) : t.firmware = s.firmware := by
  unfold firmware
  rw [h]

theorem handled_failures (opcode : UInt32) (arguments : List UInt32) (s : EmulatedSdm)
    (failures : List PlannedFailure) : handled opcode arguments { s with failures } =
      ({ (handled opcode arguments s).1 with failures }, (handled opcode arguments s).2) := by
  unfold handled
  split
  all_goals try rfl
  cases h : s.pendingUpdate <;> simp [rebooted, h]

/-- What carrying out a command leaves depends on nothing but what the device manager knows. -/
theorem firmware_handled (opcode : UInt32) (arguments : List UInt32) (h : t.firmware = s.firmware) :
    (handled opcode arguments t).1.firmware = (handled opcode arguments s).1.firmware := by
  have hknown (u : EmulatedSdm) :
      (handled opcode arguments u.firmware).1 = (handled opcode arguments u).1.firmware := by
    unfold firmware
    rw [handled_failures, handled_memory]
  rw [← hknown, ← hknown, h]

/-- The next answer to the command is injected: the device manager is to be busy, or the command to fail. -/
def Injected (c : LoggedCommand) (s : EmulatedSdm) : Prop :=
  0 < s.busy ∨ (takeFailure c.header.opcode s.failures).isSome

instance (c : LoggedCommand) (s : EmulatedSdm) : Decidable (Injected c s) :=
  inferInstanceAs (Decidable (_ ∨ _))

theorem Injected.replied (h : Injected c s) : (replied c s).1.firmware = s.firmware ∧ (replied c s).2.2 = [] := by
  unfold EmulatedSdm.replied
  split
  next => exact ⟨rfl, rfl⟩
  next hready =>
    obtain ⟨⟨code, failures⟩, htaken⟩ := Option.isSome_iff_exists.mp (h.resolve_left hready)
    rw [htaken]
    exact ⟨rfl, rfl⟩

/-- The device manager carries the command out unless the answer is injected. -/
theorem replied_carried (h : ¬ Injected c s) : replied c s =
    ((handled c.header.opcode c.arguments s).1, (handled c.header.opcode c.arguments s).2.1.value,
      (handled c.header.opcode c.arguments s).2.2) := by
  unfold Injected at h
  rw [not_or, Bool.not_eq_true, Option.isSome_eq_false_iff, Option.isNone_iff_eq_none] at h
  unfold replied
  rw [if_neg h.1, h.2]

theorem firmware_executed (h : Injected c s) : (executed c s).firmware = s.firmware :=
  h.replied.1

/-! ### Answers one after the other -/

/-- The answer to a command that has been executed `i` times before. -/
def answerAfter (c : LoggedCommand) (s : EmulatedSdm) (i : Nat) : Response :=
  answer c (s.after (.replicate i c))

/-- After executing a command once, its answers are those from the second on. -/
theorem answerAfter_executed (h : t.bare = (executed c s).bare) (i : Nat) :
    answerAfter c t i = answerAfter c s (i + 1) :=
  answer_congr (bare_after h (.replicate i c)) c

theorem after_succ (s : EmulatedSdm) (i : Nat) (c : LoggedCommand) :
    s.after (.replicate (i + 1) c) = executed c (s.after (.replicate i c)) := by
  rw [List.replicate_succ', after_append]
  rfl

/-- Injected answers, however many, leave what the device manager knows. -/
theorem firmware_after {k : Nat} (h : ∀ i < k, Injected c (s.after (.replicate i c))) :
    (s.after (.replicate k c)).firmware = s.firmware := by
  induction k with
  | zero => rfl
  | succ k ih =>
    rw [after_succ, firmware_executed (h k (Nat.lt_succ_self k))]
    exact ih fun i hi => h i (Nat.lt_succ_of_lt hi)

end EmulatedSdm

open EmulatedSdm

/-- The driver tries again when it gets this code. -/
def Transient (code : UInt32) : Prop :=
  code = ResponseCode.deviceBusy.value ∨ code = ResponseCode.timeout.value

instance (code : UInt32) : Decidable (Transient code) :=
  inferInstanceAs (Decidable (_ ∨ _))

theorem Transient.result {code : UInt32} (h : Transient code) (count : Nat) :
    ∃ e, resultOfCode code count = .error e ∧ e.isTransient := by
  rcases h with rfl | rfl
  · exact ⟨.busy, rfl, rfl⟩
  · exact ⟨.timeout, rfl, rfl⟩

theorem final_of_not_transient {code : UInt32} (h : ¬ Transient code) (count : Nat) {e : MailboxError}
    (he : resultOfCode code count = .error e) : ¬ e.isTransient := by
  unfold resultOfCode at he
  split at he
  case h_1 => cases he
  case h_2 hcode =>
    have := List.find?_some hcode
    exact absurd (.inl (beq_iff_eq.mp this).symm) h
  case h_3 hcode =>
    have := List.find?_some hcode
    exact absurd (.inr (beq_iff_eq.mp this).symm) h
  all_goals
    cases he
    exact Bool.false_ne_true

/-- The only codes for which the driver tries again are injected. -/
theorem injected_of_transient {c : LoggedCommand} {s : EmulatedSdm} (h : Transient (answer c s).header.code) :
    Injected c s := by
  by_contra hcarried
  have hmember := code_handled c.header.opcode c.arguments s
  rw [code_answer, replied_carried hcarried, Mailbox.code_named] at h
  generalize (handled c.header.opcode c.arguments s).2.1 = code at h hmember
  revert h
  simp only [List.mem_cons, List.not_mem_nil, or_false] at hmember
  rcases hmember with rfl | rfl | rfl <;> decide

/-- Of the answers to `limit` attempts, counted from 0, the one with the index `k` is the first for which the
driver does not try again, or else the last. -/
structure FirstFinal (answers : Nat → Response) (limit k : Nat) : Prop where
  within : k < limit
  before : ∀ i < k, Transient (answers i).header.code
  final : ¬ Transient (answers k).header.code ∨ k + 1 = limit

variable {answers : Nat → Response} {limit k k' : Nat}

theorem FirstFinal.unique (h : FirstFinal answers limit k)
    (h' : FirstFinal answers limit k') : k = k' := by
  have hle {k k' : Nat} (h : FirstFinal answers limit k) (h' : FirstFinal answers limit k') : k' ≤ k := by
    by_contra hlt
    rcases h.final with hfinal | hlast
    · exact hfinal (h'.before k (Nat.not_le.mp hlt))
    · have := h'.within
      omega
  exact Nat.le_antisymm (hle h' h) (hle h h')

theorem FirstFinal.succ (hfirst : Transient (answers 0).header.code)
    (h : FirstFinal (fun i => answers (i + 1)) limit k) : FirstFinal answers (limit + 1) (k + 1) where
  within := Nat.succ_lt_succ h.within
  before i hi := by
    cases i with
    | zero => exact hfirst
    | succ i => exact h.before i (Nat.lt_of_succ_lt_succ hi)
  final := h.final.imp_right (congrArg (· + 1))

namespace Mailbox

variable {timing : Timing} {s t u : EmulatedSdm} {c : LoggedCommand} {opcode : UInt32}
  {arguments : List UInt32} {room : Nat}

/-! ### Attempts one after the other -/

/-- The device manager has nothing to do, no response is waiting, and doorbells are heard. The driver waits
long enough for the answer to get past the strays. -/
structure Ready (timing : Timing) (s : EmulatedSdm) : Prop where
  idle : Idle s
  quiet : s.queue = []
  doorbells : s.lostDoorbells = some 0
  soon : s.strays + s.consumeDelay + 4 ≤ timing.doorbellPolls
  data : 0 < timing.dataPolls

theorem Served.ready (h : Served c s t) (hs : Ready timing s) : Ready timing t where
  idle := h.idle
  quiet := h.quiet
  doorbells := h.doorbells
  soon := by
    have := hs.soon
    rw [h.strays, h.consumeDelay]
    omega
  data := hs.data

theorem Ready.ticked (h : Ready timing s) : s.ticked = s :=
  ticked_idle h.idle.stopped (.inl (List.append_eq_nil_iff.mp h.quiet).2)

/-- From `s` to `t` these commands have been executed and nothing else. -/
structure Executions (timing : Timing) (cs : List LoggedCommand) (s t : EmulatedSdm) : Prop where
  ready : Ready timing t
  log : t.log.toList = s.log.toList ++ cs
  bare : t.bare = (s.after cs).bare

theorem Served.executions (h : Served c s t) (hs : Ready timing s) : Executions timing [c] s t where
  ready := h.ready hs
  log := by rw [h.log, Array.toList_push]
  bare := h.bare

theorem Executions.trans {cs ds : List LoggedCommand} (h : Executions timing cs s t)
    (h' : Executions timing ds t u) : Executions timing (cs ++ ds) s u where
  ready := h'.ready
  log := by rw [h'.log, h.log, List.append_assoc]
  bare := by rw [h'.bare, after_append, bare_after h.bare]

/-- How the attempts of the driver turn out that begin in `s`. The last of them has come after `k` others. -/
structure Persists (timing : Timing) (opcode : UInt32) (arguments : List UInt32) (more number : Nat)
    (buffer : Vector UInt32 room) (s : EmulatedSdm) (k : Nat) (t : EmulatedSdm) : Prop where
  first : FirstFinal (answerAfter (.fromHost opcode arguments) s) (more + 1) k
  executions : Executions timing (.replicate (k + 1) (.fromHost opcode arguments)) s t
  returns : Returns (send.go (host timing) opcode arguments false more number buffer) s
    (resultOfCode (answerAfter (.fromHost opcode arguments) s k).header.code
        (min room (answerAfter (.fromHost opcode arguments) s k).data.length),
      overlay buffer (answerAfter (.fromHost opcode arguments) s k).data) t

section Attempts

variable {more number k : Nat} {buffer : Vector UInt32 room} (h : Ready timing s)
  (hattempt : Returns ((host timing).attempt opcode arguments false room) s
    (answeredBy (answer (.fromHost opcode arguments) s) room) t)
  (hserved : Served (.fromHost opcode arguments) s t)
include h hattempt hserved

theorem persists_last (number : Nat) (buffer : Vector UInt32 room)
    (hlast : ¬ Transient (answer (.fromHost opcode arguments) s).header.code ∨ more = 0) :
    Persists timing opcode arguments more number buffer s 0 t where
  first := ⟨Nat.succ_pos more, nofun, hlast.imp_right (congrArg (· + 1) ·.symm)⟩
  executions := hserved.executions h
  returns := by
    have hready := hserved.ready h
    have hresult := result_answeredBy (answer (.fromHost opcode arguments) s) room
    show Returns _ s (resultOfCode (answer _ s).header.code _, overlay buffer (answer _ s).data) t
    rw [← overlay_answeredBy]
    by_cases htransient : Transient (answer (.fromHost opcode arguments) s).header.code
    · obtain rfl := hlast.resolve_left (not_not_intro htransient)
      obtain ⟨e, herror, he⟩ := htransient.result (min room (answer (.fromHost opcode arguments) s).data.length)
      have hgo : Returns (send.go (host timing) opcode arguments false 0 number buffer) s _ _ :=
        send_last hattempt hready.idle.sound (hresult.trans herror) he
      rwa [hready.ticked, ← herror] at hgo
    · exact send_final hattempt hresult fun _ => final_of_not_transient htransient _

theorem persists_again (hrest : Persists timing opcode arguments more (number + 1) buffer t k u)
    (htransient : Transient (answer (.fromHost opcode arguments) s).header.code) :
    Persists timing opcode arguments (more + 1) number buffer s (k + 1) u := by
  have hready := hserved.ready h
  have hresult := result_answeredBy (answer (.fromHost opcode arguments) s) room
  have hlater := funext (answerAfter_executed hserved.bare)
  obtain ⟨e, herror, he⟩ := htransient.result (min room (answer (.fromHost opcode arguments) s).data.length)
  have hnothing : overlay buffer (answeredBy (answer (.fromHost opcode arguments) s) room).copied = buffer := by
    have hdata : (answer (.fromHost opcode arguments) s).data = [] :=
      (injected_of_transient htransient).replied.2
    rw [overlay_answeredBy, hdata, overlay_nil]
  obtain ⟨hfirst, hexecutions, hgo⟩ := hrest
  rw [hlater] at hfirst hgo
  refine ⟨hfirst.succ htransient, (hserved.executions h).trans hexecutions, ?_⟩
  refine send_again hattempt hready.idle.sound (hresult.trans herror) he ?_
  rw [hnothing, hready.ticked]
  exact hgo

end Attempts

/-- The attempts that the driver makes, from any of them on. -/
theorem go_persists (more number : Nat) (buffer : Vector UInt32 room) (h : Ready timing s)
    (hopcode : opcode ≤ maxOpcode) (harguments : arguments.length ≤ maxArguments)
    (hpasses : timing.Passes s.consumeDelay (LoggedCommand.fromHost opcode arguments).words.length) :
    ∃ k t, Persists timing opcode arguments more number buffer s k t := by
  induction more generalizing s number with
  | zero =>
    obtain ⟨t, hattempt, hserved⟩ :=
      attempt_served h.idle h.quiet h.doorbells hopcode harguments h.soon hpasses h.data room
    exact ⟨0, t, persists_last h hattempt hserved number buffer (.inr rfl)⟩
  | succ more ih =>
    obtain ⟨t, hattempt, hserved⟩ :=
      attempt_served h.idle h.quiet h.doorbells hopcode harguments h.soon hpasses h.data room
    by_cases htransient : Transient (answer (.fromHost opcode arguments) s).header.code
    · obtain ⟨k, u, hrest⟩ := ih (number + 1) (hserved.ready h) (hserved.consumeDelay ▸ hpasses)
      exact ⟨k + 1, u, persists_again h hattempt hserved hrest htransient⟩
    · exact ⟨0, t, persists_last h hattempt hserved number buffer (.inl htransient)⟩

/-! ### The call -/

/-- The command is executed once for each attempt, and the first answer that is final, or else that of the
last attempt, decides. All before it were injected, so the command is carried out in the last execution or
not at all. A command with 31 arguments takes one word more than there is room for, so the driver must be
patient to send it. -/
theorem send_persists (timing : Timing) (s : EmulatedSdm) (opcode : UInt32) (arguments : List UInt32)
    (buffer : Vector UInt32 room) (h : Ready timing s) (hretries : 1 ≤ timing.retries)
    (hopcode : opcode ≤ maxOpcode) (harguments : arguments.length ≤ maxArguments)
    (hpasses : timing.Passes s.consumeDelay (arguments.length + 1)) :
    ∃ (c : LoggedCommand) (k : Nat) (t : EmulatedSdm),
      c = .fromHost opcode arguments ∧ c.header.opcode = opcode ∧ c.arguments = arguments ∧
      FirstFinal (answerAfter c s) timing.retries k ∧
      Returns ((host timing).send opcode arguments false buffer) s
        (resultOfCode (answerAfter c s k).header.code (min room (answerAfter c s k).data.length),
          overlay buffer (answerAfter c s k).data) t ∧
      t.log.toList = s.log.toList ++ List.replicate (k + 1) c ∧ Idle t ∧ t.queue = [] ∧
      (∀ i ≤ k, Injected c (s.after (.replicate i c)) →
        (s.after (.replicate (i + 1) c)).firmware = (s.after (.replicate i c)).firmware) ∧
      (∀ i < k, Injected c (s.after (.replicate i c))) ∧
      t.firmware = if Injected c (s.after (.replicate k c)) then s.firmware
        else (handled opcode arguments s).1.firmware := by
  let c := LoggedCommand.fromHost opcode arguments
  have hheader : c.header.opcode = opcode := CommandHeader.opcode_make hopcode
  obtain ⟨k, t, hfirst, hexecutions, hgo⟩ :=
    go_persists (timing.retries - 1) 1 buffer h hopcode harguments hpasses
  rw [Nat.sub_add_cancel hretries] at hfirst
  have hinjected : ∀ i < k, Injected c (s.after (.replicate i c)) :=
    fun i hi => injected_of_transient (hfirst.before i hi)
  -- all attempts but the last were answered by the injection, which leaves the firmware alone
  have hbefore : (s.after (.replicate k c)).firmware = s.firmware := firmware_after hinjected
  refine ⟨c, k, t, rfl, hheader, rfl, hfirst, hgo, hexecutions.log, hexecutions.ready.idle, hexecutions.ready.quiet,
    fun i _ hi => ?_, hinjected, ?_⟩
  · rw [after_succ, firmware_executed hi]
  · rw [firmware_congr (memory_congr hexecutions.bare), after_succ]
    split
    next hlast => rw [firmware_executed hlast, hbefore]
    next hlast =>
      have hcarried := congrArg (fun r => r.1.firmware) (replied_carried hlast)
      rw [hheader] at hcarried
      exact hcarried.trans (firmware_handled opcode arguments hbefore)

/-- A device manager that is to be busy once, and then to let an update fail once as if it had taken too long. -/
def faltering : EmulatedSdm :=
  { (fresh {}) with strays := 2, consumeDelay := 3, busy := 1, failures := [⟨92, 0x1fe, 1⟩] }

/-- The third attempt at an update succeeds, and the fourth is not made. -/
theorem send_persists_faltering : ∃ t,
    Returns ((host { retries := 4 }).send 92 [0x120000, 0] false noData) faltering (.ok 0, noData) t ∧
      t.log.size = 3 ∧ t.firmware = { faltering.firmware with pendingUpdate := some 0x120000 } := by
  have hready : Ready { retries := 4 } faltering :=
    ⟨⟨⟨rfl, by decide, by decide, by decide, by decide, rfl, rfl⟩, rfl, rfl, rfl, rfl⟩, rfl, rfl, by decide,
      by decide⟩
  obtain ⟨c, k, t, rfl, -, -, hfirst, hreturns, hlog, -, -, -, -, hfirmware⟩ :=
    send_persists { retries := 4 } faltering 92 [0x120000, 0] noData hready (by decide) (by decide) (by decide)
      (.inr (by decide))
  obtain rfl : k = 2 := hfirst.unique ⟨by decide, by decide, .inl (by decide)⟩
  have hsize := congrArg List.length hlog
  rw [List.length_append, List.length_replicate] at hsize
  exact ⟨t, hreturns, hsize, hfirmware⟩

def slow : EmulatedSdm :=
  { (fresh {}) with consumeDelay := 1000 }

/-- With 31 arguments a command does not get through to it, however long the driver would wait for the answer:
executing the command would succeed, and the call fails. -/
theorem send_too_long :
    let timing : Timing := { doorbellPolls := 1004 }
    let arguments : List UInt32 := List.replicate 31 7
    let c := LoggedCommand.fromHost 93 arguments
    Ready timing slow ∧ FirstFinal (answerAfter c slow) timing.retries 0 ∧
      resultOfCode (answerAfter c slow 0).header.code 0 = .ok 0 ∧
      ∃ e buffer t, Returns ((host timing).send 93 arguments false noData) slow (.error e, buffer) t := by
  intro timing arguments c
  have hidle : Idle slow := ⟨⟨rfl, by decide, by decide, by decide, by decide, rfl, rfl⟩, rfl, rfl, rfl, rfl⟩
  have hblocked : Blocked timing c slow := blocked_of_idle hidle (by decide) (by decide)
  exact ⟨⟨hidle, rfl, rfl, by decide, by decide⟩, ⟨by decide, nofun, .inl (by decide)⟩, by decide,
    .timeout, hblocked.send (by decide) (by decide) _ 1 noData⟩

end Mailbox

end RemoteUpdate
