import RemoteUpdate.Proofs.Mailbox.Persisting

/-!
# Taking over the flash controller

To take over the flash controller the driver opens it and asks for direct access. A controller that it cannot
open it closes and opens once more, and one that it gets no access to it closes again. Each of these commands may
fail, for any reason and in any number of attempts. A controller that has been taken over is open. If the driver
gives up and no answer came too late for its attempt, it leaves the controller open only if the last close has been
answered, with whatever code, and not carried out.
-/

namespace RemoteUpdate

open EmulatedSdm

def Command.plain (command : Command) : LoggedCommand :=
  .fromHost command.opcode []

namespace EmulatedSdm

variable {b s t u : EmulatedSdm} {command : Command} {cs ds : List LoggedCommand}

/-! ### What commands do to the controller -/

theorem replied_plain (h : ¬ Injected command.plain s) : replied command.plain s =
    ((handled command.opcode [] s).1, (handled command.opcode [] s).2.1.value,
      (handled command.opcode [] s).2.2) := by
  have hheader : command.plain.header.opcode = command.opcode := CommandHeader.opcode_make command.opcode_le
  have hcarried := replied_carried h
  rwa [hheader] at hcarried

theorem controllerOpen_injected {c : LoggedCommand} (h : Injected c s) :
    (executed c s).controllerOpen = s.controllerOpen := by
  have hfirmware := congrArg EmulatedSdm.controllerOpen h.replied.1
  exact hfirmware

theorem controllerOpen_carried (h : ¬ Injected command.plain s) :
    (executed command.plain s).controllerOpen = (handled command.opcode [] s).1.controllerOpen := by
  have hreplied := congrArg (fun r => r.1.controllerOpen) (replied_plain h)
  exact hreplied

theorem code_open (h : ¬ Injected Command.qspiOpen.plain s) :
    (answer Command.qspiOpen.plain s).header.code = ResponseCode.ok.value := by
  rw [code_answer, replied_plain h]
  exact Mailbox.code_named .ok

theorem controllerOpen_direct (s : EmulatedSdm) :
    (executed Command.qspiDirect.plain s).controllerOpen = s.controllerOpen := by
  by_cases h : Injected Command.qspiDirect.plain s
  · exact controllerOpen_injected h
  · exact controllerOpen_carried h

/-- Of the commands that concern the controller, only direct access is answered with a word, and only if the
controller is open. -/
theorem direct_of_data (hcommand : command = .qspiOpen ∨ command = .qspiClose ∨ command = .qspiDirect)
    (hdata : (answer command.plain s).data ≠ []) : command = .qspiDirect ∧ s.controllerOpen = true ∧
      (answer command.plain s).data = [s.referenceClock] := by
  have hcarried : ¬ Injected command.plain s := fun h => hdata h.replied.2
  have hreplied : (answer command.plain s).data = (handled command.opcode [] s).2.2 :=
    congrArg (fun r => r.2.2) (replied_plain hcarried)
  rw [hreplied] at hdata ⊢
  rcases hcommand with rfl | rfl | rfl
  · exact absurd rfl hdata
  · exact absurd rfl hdata
  · have hhandled : handled Command.qspiDirect.opcode [] s =
        (s, if s.controllerOpen then (.ok, [s.referenceClock]) else (.error, [])) := rfl
    rw [hhandled] at hdata ⊢
    cases hopen : s.controllerOpen with
    | true => exact ⟨rfl, rfl, rfl⟩
    | false =>
      rw [hopen] at hdata
      exact absurd rfl hdata

theorem referenceClock_handled (opcode : UInt32) (arguments : List UInt32) (s : EmulatedSdm) :
    (handled opcode arguments s).1.referenceClock = s.referenceClock := by
  unfold handled
  split
  -- only a reboot takes the state apart, to load the image that is pending
  all_goals try rfl
  cases h : s.pendingUpdate <;> simp [rebooted, h]

theorem referenceClock_executed (c : LoggedCommand) (s : EmulatedSdm) :
    (executed c s).referenceClock = s.referenceClock := by
  show (replied c s).1.referenceClock = s.referenceClock
  by_cases h : Injected c s
  · have hfirmware := congrArg EmulatedSdm.referenceClock h.replied.1
    exact hfirmware
  · rw [replied_carried h]
    exact referenceClock_handled _ _ s

/-- The reference clock never changes. -/
theorem referenceClock_after (s : EmulatedSdm) (cs : List LoggedCommand) :
    (s.after cs).referenceClock = s.referenceClock := by
  induction cs generalizing s with
  | nil => rfl
  | cons c cs ih => exact (ih (executed c s)).trans (referenceClock_executed c s)

/-- Asking for direct access, however often, leaves the controller as it is. -/
theorem controllerOpen_after_direct (h : ∀ c ∈ cs, c = Command.qspiDirect.plain) (s : EmulatedSdm) :
    (s.after cs).controllerOpen = s.controllerOpen := by
  induction cs generalizing s with
  | nil => rfl
  | cons c cs ih =>
    obtain ⟨rfl, hrest⟩ := List.forall_mem_cons.mp h
    exact (ih hrest _).trans (controllerOpen_direct s)

/-! ### What is planned -/

/-- A failure with this code is planned for the opcode, or was before it was used up. -/
def Plans (s : EmulatedSdm) (opcode code : UInt32) : Prop :=
  ∃ f ∈ s.failures, f.opcode = opcode ∧ f.code = code

theorem takeFailure_plans {opcode code : UInt32} {failures left : List PlannedFailure}
    (h : takeFailure opcode failures = some (code, left)) :
    (∃ f ∈ failures, f.opcode = opcode ∧ f.code = code) ∧
      ∀ f ∈ left, ∃ f' ∈ failures, f'.opcode = f.opcode ∧ f'.code = f.code := by
  induction failures generalizing left with
  | nil => cases h
  | cons f failures ih =>
    unfold takeFailure at h
    split at h
    next hf =>
      cases h
      refine ⟨⟨f, List.mem_cons_self, hf.1, rfl⟩, List.forall_mem_cons.mpr ⟨⟨f, List.mem_cons_self, rfl, rfl⟩, ?_⟩⟩
      exact fun g hg => ⟨g, List.mem_cons_of_mem f hg, rfl, rfl⟩
    next =>
      obtain ⟨⟨_, rest⟩, hrest, heq⟩ := Option.map_eq_some_iff.mp h
      cases heq
      obtain ⟨⟨g, hg, hcode⟩, hleft⟩ := ih hrest
      refine ⟨⟨g, List.mem_cons_of_mem f hg, hcode⟩,
        List.forall_mem_cons.mpr ⟨⟨f, List.mem_cons_self, rfl, rfl⟩, fun g hg => ?_⟩⟩
      obtain ⟨g', hg', hsame⟩ := hleft g hg
      exact ⟨g', List.mem_cons_of_mem f hg', hsame⟩

theorem plans_of_after {opcode code : UInt32} (h : (s.after cs).Plans opcode code) : s.Plans opcode code := by
  induction cs generalizing s with
  | nil => exact h
  | cons c cs ih =>
    obtain ⟨f, hf, hopcode, hcode⟩ := ih (s := executed c s) h
    have hfailures : f ∈ (replied c s).1.failures := hf
    unfold replied at hfailures
    split at hfailures
    next => exact ⟨f, hfailures, hopcode, hcode⟩
    next =>
      split at hfailures
      next htaken =>
        obtain ⟨f', hf', hsame⟩ := (takeFailure_plans htaken).2 f hfailures
        exact ⟨f', hf', hsame.1.trans hopcode, hsame.2.trans hcode⟩
      next =>
        have hkept := (handled_faults c.header.opcode c.arguments s).2
        exact ⟨f, hkept ▸ hfailures, hopcode, hcode⟩

/-- An injected answer says that all is well only if that is planned. -/
theorem Injected.plans (h : Injected command.plain s)
    (hok : (answer command.plain s).header.code = ResponseCode.ok.value) :
    ∃ code, s.Plans command.opcode code ∧ code &&& HeaderField.code.mask = ResponseCode.ok.value := by
  have hheader : command.plain.header.opcode = command.opcode := CommandHeader.opcode_make command.opcode_le
  rw [code_answer] at hok
  unfold Injected at h
  unfold EmulatedSdm.replied at hok
  split at hok
  next => exact absurd hok (show ResponseCode.deviceBusy.value &&& HeaderField.code.mask ≠ _ by decide)
  next hready =>
    obtain ⟨⟨code, left⟩, htaken⟩ := Option.isSome_iff_exists.mp (h.resolve_left hready)
    rw [htaken] at hok
    rw [hheader] at htaken
    exact ⟨code, (takeFailure_plans htaken).1, hok⟩

end EmulatedSdm

namespace Mailbox

variable {timing : Timing} {b s t u : EmulatedSdm} {a : Attempt} {command : Command} {n n' room count : ℕ}
  {g : Received} {cs : List LoggedCommand} {buffer : Vector UInt32 room}

/-! ### Answers to the commands of a run -/

/-- The host has filled the buffer from an answer that was drawn by the first of these commands, and the device
manager has come no further than that. -/
def Took (b : EmulatedSdm) (cs : List LoggedCommand) (count : ℕ) (buffer : Vector UInt32 room) (t : EmulatedSdm) :
    Prop :=
  ∃ (f : Received) (r : Response), f.complete <+: cs ∧ t.past = (b.reached f).past ∧ r ∈ b.drawn f.complete ∧
    r.Answers ∧ count = min room r.data.length ∧ buffer.toList.take count = r.data.take count

theorem Collected.took (h : Collected b [] g room n a t n') (buffer : Vector UInt32 room)
    (hok : a.result = .ok count) : Took b g.complete count (overlay buffer a.copied) t := by
  cases h with
  | missed => exact nomatch hok
  | @answered _ m r f hf hpast hr hans _ =>
    have hcount : count = min room r.data.length := (resultOfCode_ok hok).trans List.length_take
    subst hcount
    exact ⟨f, r, hf, hpast, List.mem_of_getElem? hr, hans, rfl, take_overlay buffer r.data⟩

section Told

variable (hb : Idle b) (hquiet : b.queue = []) (hdata : 0 < timing.dataPolls)
include hb hquiet hdata

theorem attempt_told (command : Command) (room : ℕ) (h : Dialogue b [] n ⟨cs, none⟩ s) :
    ∃ a t n' k, Returns ((host timing).attempt command.opcode [] false room) s a t ∧
      Dialogue b [] n' ⟨cs ++ .replicate k command.plain, none⟩ t ∧
      ∀ (buffer : Vector UInt32 room) count, a.result = .ok count →
        Took b (cs ++ .replicate k command.plain) count (overlay buffer a.copied) t := by
  have hold : b.queue = Response.wire [] := hquiet
  have harguments : ([] : List UInt32).length ≤ maxArguments := Nat.zero_le _
  obtain ⟨a, t, n', g', hattempt, hdialogue, hattempted⟩ :=
    attempt_dialogue hb hold command.opcode_le harguments hdata room h
  cases hattempted with
  | sent hcollected =>
    have hnext : (LoggedCommand.fromHost command.opcode []).words.foldl Received.next ⟨cs, none⟩ =
        ⟨cs ++ [command.plain], none⟩ :=
      Received.next_words (LoggedCommand.whole_fromHost harguments)
    refine ⟨a, t, n', 1, hattempt, hnext ▸ hdialogue, fun buffer count hok => ?_⟩
    have htook := hcollected.took buffer hok
    rw [hnext] at htook
    exact htook
  | @cut _ front rest hwords hrest =>
    -- the only word of the command has not got through
    obtain rfl : front = [] := by
      cases front with
      | nil => rfl
      | cons word front =>
        have hlength := congrArg List.length hwords
        rw [List.cons_append, List.length_cons, List.length_append] at hlength
        have := List.length_pos_iff.mpr hrest
        have hone : (LoggedCommand.fromHost command.opcode []).words.length = 1 := rfl
        omega
    refine ⟨missed, t, n, 0, hattempt, ?_, fun _ _ hok => nomatch hok⟩
    rw [List.replicate_zero, List.append_nil]
    exact hdialogue

theorem send_told (command : Command) (more number : ℕ) (buffer : Vector UInt32 room)
    (h : Dialogue b [] n ⟨cs, none⟩ s) : ∃ r buffer' t,
      Returns (send.go (host timing) command.opcode [] false more number buffer) s (r, buffer') t ∧
      ∃ n' k, Dialogue b [] n' ⟨cs ++ .replicate k command.plain, none⟩ t ∧
        ∀ count, r = .ok count → Took b (cs ++ .replicate k command.plain) count buffer' t := by
  have hold : b.queue = Response.wire [] := hquiet
  refine returns_go (I := fun _ u => ∃ n k, Dialogue b [] n ⟨cs ++ .replicate k command.plain, none⟩ u)
    (fun _ u => ?_) (fun u e _ => ?_) more number buffer ⟨n, 0, by simpa using h⟩
  · rintro ⟨n, k, h⟩
    obtain ⟨a, t, n', k', hattempt, hdialogue, htook⟩ := attempt_told hb hquiet hdata command room h
    rw [List.append_assoc, ← List.replicate_add] at hdialogue htook
    exact ⟨a, t, hattempt, hdialogue.sound, fun _ buffer => ⟨n', k + k', hdialogue, htook buffer⟩,
      fun _ => ⟨n', k + k', hdialogue.advances hb hold (advances_ticked hdialogue.sound)⟩⟩
  · rintro ⟨n, k, h⟩
    exact ⟨n, k, h, nofun⟩

end Told

/-- Opens and closes the controller. -/
def Moves (c : LoggedCommand) : Prop :=
  c = Command.qspiOpen.plain ∨ c = Command.qspiClose.plain

instance (c : LoggedCommand) : Decidable (Moves c) :=
  inferInstanceAs (Decidable (_ ∨ _))

theorem directs_drop {i k : ℕ} {ds : List LoggedCommand} (hcs : ∀ c ∈ cs, Moves c)
    (hds : ds <+: cs ++ .replicate k Command.qspiDirect.plain) (hi : i < ds.length)
    (hdirect : ds[i] = Command.qspiDirect.plain) : ∀ c ∈ ds.drop i, c = Command.qspiDirect.plain := by
  have hlate : cs.length ≤ i := by
    by_contra hlt
    have hearly := hds.getElem hi
    rw [hdirect, List.getElem_append_left (Nat.not_le.mp hlt)] at hearly
    have hmoves := hcs _ (List.getElem_mem (Nat.not_le.mp hlt))
    rw [← hearly] at hmoves
    exact absurd hmoves (by decide)
  intro c hc
  have hmem := (hds.drop i).subset hc
  rw [List.drop_append, List.drop_eq_nil_of_le hlate, List.nil_append] at hmem
  exact List.eq_of_mem_replicate (List.mem_of_mem_drop hmem)

/-- Whoever is told a word after asking for direct access has been told the reference clock, and the controller is
open. -/
theorem Took.direct {k : ℕ} {clock : Vector UInt32 1} (hcs : ∀ c ∈ cs, Moves c)
    (h : Took b (cs ++ .replicate k Command.qspiDirect.plain) count clock t) (hcount : 1 ≤ count) :
    t.controllerOpen = true ∧ clock[0] = b.referenceClock := by
  obtain ⟨f, r, hf, hpast, hr, hans, rfl, hwords⟩ := h
  obtain ⟨i, hi, hdrawn⟩ := mem_drawn hr
  obtain ⟨command, hcommand, hc⟩ : ∃ command : Command,
      (command = .qspiOpen ∨ command = .qspiClose ∨ command = .qspiDirect) ∧ f.complete[i] = command.plain := by
    rcases List.mem_append.mp (hf.subset (List.getElem_mem hi)) with hmoves | hdirect
    · rcases hcs _ hmoves with hopen | hclose
      · exact ⟨.qspiOpen, .inl rfl, hopen⟩
      · exact ⟨.qspiClose, .inr (.inl rfl), hclose⟩
    · exact ⟨.qspiDirect, .inr (.inr rfl), List.eq_of_mem_replicate hdirect⟩
  have hanswer : r = answer command.plain (b.after (f.complete.take i)) := by
    rw [hc] at hdrawn
    exact eq_answer_of_mem hdrawn hans
  have hdata : r.data ≠ [] := by
    rintro hnil
    rw [hnil] at hcount
    exact absurd hcount (by decide)
  obtain ⟨rfl, hopen, hclock⟩ := direct_of_data hcommand (hanswer ▸ hdata)
  refine ⟨?_, ?_⟩
  · -- whatever followed the request that was answered was direct too, which leaves the controller open
    have hreached : (b.after f.complete).controllerOpen = true := by
      rw [← List.take_append_drop i f.complete, after_append,
        controllerOpen_after_direct (directs_drop hcs hf hi hc)]
      exact hopen
    have hsame := congrArg EmulatedSdm.controllerOpen hpast
    exact hsame.trans hreached
  · rw [hanswer, hclock, referenceClock_after] at hwords
    have hword := congrArg List.head? hwords
    simpa [List.head?_take, List.head?_eq_getElem?] using hword

/-! ### Calls that are answered in time -/

theorem ends_outcome {ρ α : Type} {x : MailboxM ρ α} {s t : ρ} {r : Except MailboxError α} (h : Ends x s r t) :
    Ends (outcome x) s (.ok r) t :=
  Ends.lift h

/-- From `s` to `t` the command has been executed once for each attempt of a call. If the call has failed, the last
answer says so. -/
def Answered (timing : Timing) (command : Command) (s : EmulatedSdm) (failed : Prop) (t : EmulatedSdm) : Prop :=
  ∃ k, Executions timing (.replicate (k + 1) command.plain) s t ∧
    (∀ i < k, Injected command.plain (s.after (.replicate i command.plain))) ∧
    (failed → (answerAfter command.plain s k).header.code ≠ ResponseCode.ok.value)

theorem send_answered (h : Ready timing s) (hpolls : 0 < timing.commandPolls) (command : Command)
    (more number : ℕ) (buffer : Vector UInt32 room) : ∃ r buffer' t,
      Returns (send.go (host timing) command.opcode [] false more number buffer) s (r, buffer') t ∧
        Answered timing command s (∃ e, r = .error e) t := by
  have harguments : ([] : List UInt32).length ≤ maxArguments := Nat.zero_le _
  obtain ⟨k, t, hpersists⟩ := go_persists more number buffer h command.opcode_le harguments
    (.inr ⟨hpolls, show 1 ≤ 31 by decide⟩)
  refine ⟨_, _, t, hpersists.returns, k, hpersists.executions,
    fun i hi => injected_of_transient (hpersists.first.before i hi), ?_⟩
  rintro ⟨e, he⟩ hok
  have hcode : (answerAfter (.fromHost command.opcode []) s k).header.code = ResponseCode.ok.value := hok
  rw [hcode] at he
  cases he

/-- An open that fails has not been carried out. -/
theorem Answered.not_opened (h : Answered timing .qspiOpen s True t) : t.controllerOpen = s.controllerOpen := by
  obtain ⟨k, hexecutions, hbefore, hfailed⟩ := h
  have hlast : Injected Command.qspiOpen.plain (s.after (.replicate k Command.qspiOpen.plain)) := by
    by_contra hcarried
    exact hfailed trivial (code_open hcarried)
  have hall : ∀ i < k + 1, Injected Command.qspiOpen.plain (s.after (.replicate i Command.qspiOpen.plain)) := by
    intro i hi
    rcases Nat.lt_succ_iff_lt_or_eq.mp hi with hlt | rfl
    · exact hbefore i hlt
    · exact hlast
  have hfirmware : t.firmware = s.firmware :=
    (firmware_congr (memory_congr hexecutions.bare)).trans (firmware_after hall)
  have hopen := congrArg EmulatedSdm.controllerOpen hfirmware
  exact hopen

/-- Of the commands executed from `s` to `t`, the last close has been given an answer and not been carried out. If
the answer says that all is well, that was planned. -/
def Unclosed (s t : EmulatedSdm) : Prop :=
  ∃ before later, t.log.toList = s.log.toList ++ (before ++ Command.qspiClose.plain :: later) ∧
    Command.qspiClose.plain ∉ later ∧ Injected Command.qspiClose.plain (s.after before) ∧
    ((answer Command.qspiClose.plain (s.after before)).header.code = ResponseCode.ok.value →
      ∃ code, s.Plans Command.qspiClose.opcode code ∧ code &&& HeaderField.code.mask = ResponseCode.ok.value)

theorem Unclosed.later (h : Unclosed s u) (hlog : t.log.toList = u.log.toList ++ cs)
    (hcs : Command.qspiClose.plain ∉ cs) : Unclosed s t := by
  obtain ⟨before, later, hlog', hlater, hinjected⟩ := h
  refine ⟨before, later ++ cs, ?_, ?_, hinjected⟩
  · rw [hlog, hlog', List.append_assoc, List.append_assoc, List.cons_append]
  · exact fun hmem => (List.mem_append.mp hmem).elim hlater hcs

/-- A controller that is open after a close has not been closed. -/
theorem Answered.unclosed {failed : Prop} (h : Answered timing .qspiClose u failed t)
    (hu : Executions timing cs s u) (hopen : t.controllerOpen = true) : Unclosed s t := by
  obtain ⟨k, hexecutions, -⟩ := h
  have hall := hu.trans hexecutions
  rw [List.replicate_succ', ← List.append_assoc] at hall
  have hinjected : Injected Command.qspiClose.plain (s.after (cs ++ .replicate k Command.qspiClose.plain)) := by
    by_contra hcarried
    have hbare := congrArg EmulatedSdm.controllerOpen hall.bare
    have hclosed : t.controllerOpen = false := by
      rw [after_append] at hbare
      exact hbare.trans (controllerOpen_carried hcarried)
    rw [hopen] at hclosed
    cases hclosed
  refine ⟨cs ++ .replicate k Command.qspiClose.plain, [], hall.log, List.not_mem_nil, hinjected, fun hok => ?_⟩
  obtain ⟨code, hplans, hcode⟩ := hinjected.plans hok
  exact ⟨code, plans_of_after hplans, hcode⟩

/-! ### Taking over -/

/-- Since `b` the device manager has been told nothing but such commands, and has executed them in time if it
answers in time. -/
structure Underway (timing : Timing) (b : EmulatedSdm) (P : LoggedCommand → Prop) (s : EmulatedSdm) : Prop where
  told : ∃ n cs, Dialogue b [] n ⟨cs, none⟩ s ∧ ∀ c ∈ cs, P c
  executions : Ready timing b → ∃ cs, Executions timing cs b s

variable {P : LoggedCommand → Prop}

theorem Underway.mono {P' : LoggedCommand → Prop} (h : Underway timing b P s) (hP : ∀ c, P c → P' c) :
    Underway timing b P' s := by
  obtain ⟨⟨n, cs, hdialogue, hcs⟩, hexecutions⟩ := h
  exact ⟨⟨n, cs, hdialogue, fun c hc => hP c (hcs c hc)⟩, hexecutions⟩

section Idle

variable (hb : Idle b) (hquiet : b.queue = []) (hpolls : 0 < timing.commandPolls) (hdata : 0 < timing.dataPolls)
include hb hquiet

theorem underway_idle : Underway timing b P b where
  told := ⟨0, [], hb.dialogue hquiet, List.forall_mem_nil _⟩
  executions h := ⟨[], h, (List.append_nil _).symm, rfl⟩

include hpolls hdata

theorem Underway.request (h : Underway timing b P s) (command : Command) (buffer : Vector UInt32 room) :
    ∃ (r : Except MailboxError ℕ) (buffer' : Vector UInt32 room) (t : EmulatedSdm),
      Ends ((host timing).request command [] buffer) s (r.map fun count => (count, buffer')) t ∧
      Underway timing b (fun c => P c ∨ c = command.plain) t ∧
      (Ready timing b → Answered timing command s (∃ e, r = .error e) t) ∧
      ∃ cs k, (∀ c ∈ cs, P c) ∧
        ∀ count, r = .ok count → Took b (cs ++ .replicate k command.plain) count buffer' t := by
  obtain ⟨⟨n, cs, hdialogue, hcs⟩, hexecutions⟩ := h
  obtain ⟨r, buffer', t, hgo, n', k, hdialogue', htook⟩ :=
    send_told hb hquiet hdata command (timing.retries - 1) 1 buffer hdialogue
  -- the same call seen from a ready SDM, where it is answered within the retries
  have hanswered : Ready timing b → Answered timing command s (∃ e, r = .error e) t := by
    intro hready
    obtain ⟨ds, hds⟩ := hexecutions hready
    obtain ⟨r', buffer'', t', hgo', hanswered⟩ :=
      send_answered hds.ready hpolls command (timing.retries - 1) 1 buffer
    obtain ⟨hresult, rfl⟩ := hgo.unique hgo'
    rwa [← (Prod.mk.inj hresult).1] at hanswered
  refine ⟨r, buffer', t, ends_request_of_send hgo, ⟨⟨n', _, hdialogue', fun c hc => ?_⟩, fun hready => ?_⟩, hanswered,
    cs, k, hcs, htook⟩
  · rcases List.mem_append.mp hc with hc | hc
    · exact .inl (hcs c hc)
    · exact .inr (List.eq_of_mem_replicate hc)
  · obtain ⟨ds, hds⟩ := hexecutions hready
    obtain ⟨k, hcalled, -⟩ := hanswered hready
    exact ⟨_, hds.trans hcalled⟩

theorem Underway.order (h : Underway timing b P s) (command : Command) (hP : P command.plain) : ∃ r t,
    Ends ((host timing).order command []) s r t ∧ Underway timing b P t ∧
      (Ready timing b → Answered timing command s (∃ e, r = .error e) t) := by
  obtain ⟨r, buffer', t, hrequest, ht, hanswered, -⟩ := h.request hb hquiet hpolls hdata command noData
  have ht := ht.mono fun c hc => hc.elim id fun heq => heq ▸ hP
  cases r with
  | ok count => exact ⟨.ok (), t, hrequest.discard_ok, ht, fun hready => by simpa using hanswered hready⟩
  | error e => exact ⟨.error e, t, hrequest.discard_error, ht, fun hready => by simpa using hanswered hready⟩

/-- If the controller cannot be opened, it is left open only if the close before the last open has not been carried
out. -/
theorem reopenController_spec : ∃ r t, Ends (host timing).reopenController b r t ∧ Underway timing b Moves t ∧
    ∀ e, r = .error e → Ready timing b → t.controllerOpen = true → Unclosed b t := by
  have hstart : Underway timing b Moves b := underway_idle hb hquiet
  obtain ⟨r, s, hopen, hs, -⟩ := hstart.order hb hquiet hpolls hdata .qspiOpen (.inl rfl)
  unfold reopenController
  cases r with
  | ok _ => exact ⟨.ok (), s, (ends_outcome hopen).bind (.pure () s), hs, fun _ h => nomatch h⟩
  | error e =>
    have hlog := returns_log timing (.controllerReopening e) s
    obtain ⟨r, t, hclose, ht, hclosed⟩ := hs.order hb hquiet hpolls hdata .qspiClose (.inr rfl)
    cases r with
    | error e =>
      refine ⟨.error e, t, (ends_outcome hopen).bind <| (Ends.lift hlog).bind hclose.bind_error, ht,
        fun _ _ hready hstays => ?_⟩
      obtain ⟨cs, hcs⟩ := hs.executions hready
      exact (hclosed hready).unclosed hcs hstays
    | ok _ =>
      obtain ⟨r, u, hreopen, hu, hopened⟩ := ht.order hb hquiet hpolls hdata .qspiOpen (.inl rfl)
      refine ⟨r, u, (ends_outcome hopen).bind <| (Ends.lift hlog).bind <| hclose.bind hreopen, hu,
        fun e he hready hstays => ?_⟩
      obtain ⟨cs, hcs⟩ := hs.executions hready
      obtain ⟨k, hexecutions, hbefore, hfailed⟩ := hopened hready
      -- the controller was open already when it was to be opened again
      have hkept := Answered.not_opened ⟨k, hexecutions, hbefore, fun _ => hfailed ⟨e, he⟩⟩
      refine ((hclosed hready).unclosed hcs (hkept ▸ hstays)).later hexecutions.log fun hmem => ?_
      exact absurd (List.eq_of_mem_replicate hmem) (by decide)

/-- Direct access is given only to an open controller. -/
theorem Underway.directAccess (h : Underway timing b Moves s) : ∃ r t,
    Ends (host timing).directAccess s r t ∧ Underway timing b (fun _ => True) t ∧
      ∀ hz, r = .ok hz → t.controllerOpen = true ∧ hz = b.referenceClock := by
  obtain ⟨r, clock, t, hrequest, ht, -, cs, k, hcs, htook⟩ :=
    h.request hb hquiet hpolls hdata .qspiDirect (Vector.replicate 1 0)
  have ht := ht.mono fun _ _ => trivial
  unfold Mailbox.directAccess
  cases r with
  | error e => exact ⟨.error e, t, hrequest.bind_error, ht, fun _ h => nomatch h⟩
  | ok count =>
    by_cases hshort : count < 1
    · have hexpect : Ends ((host timing).expectWords 1 count) t (.error (.shortResponse 1 count)) t := by
        rw [expectWords, if_pos hshort]
        exact .throw _ t
      exact ⟨_, t, hrequest.bind hexpect.bind_error, ht, fun _ h => nomatch h⟩
    · have hexpect : Ends ((host timing).expectWords 1 count) t (.ok ()) t := by
        rw [expectWords, if_neg hshort]
        exact .pure () t
      obtain ⟨hopen, hclock⟩ := (htook count rfl).direct hcs (Nat.not_lt.mp hshort)
      refine ⟨.ok clock[0], t, hrequest.bind <| hexpect.bind (.pure _ t), ht, ?_⟩
      rintro _ ⟨⟩
      exact ⟨hopen, hclock⟩

variable (timing) in
/-- A controller that has been taken over is open and tells its clock. If the driver gives up, it is left open only
if the last close has not been carried out. -/
theorem takeController_spec : ∃ r t, Ends (host timing).takeController b r t ∧
    (∀ hz, r = .ok hz → t.controllerOpen = true ∧ hz = b.referenceClock) ∧
    ∀ e, r = .error e → Ready timing b → t.controllerOpen = true → Unclosed b t := by
  obtain ⟨r, s, hreopen, hs, hunclosed⟩ := reopenController_spec hb hquiet hpolls hdata
  unfold takeController
  cases r with
  | error e =>
    refine ⟨.error e, s, hreopen.bind_error, fun _ h => (nomatch h), fun _ _ => hunclosed e rfl⟩
  | ok _ =>
    obtain ⟨r, t, hdirect, ht, hopen⟩ := hs.directAccess hb hquiet hpolls hdata
    cases r with
    | ok hz =>
      have hlog := returns_log timing (.referenceClock hz) t
      refine ⟨.ok hz, t, hreopen.bind <| (ends_outcome hdirect).bind <| (Ends.lift hlog).bind (.pure hz t), ?_,
        fun _ h => nomatch h⟩
      rintro _ ⟨⟩
      exact hopen hz rfl
    | error e =>
      obtain ⟨r, u, hclose, -, hclosed⟩ := ht.order hb hquiet hpolls hdata .qspiClose trivial
      refine ⟨.error e, u, hreopen.bind <| (ends_outcome hdirect).bind <|
        (ends_outcome hclose).discard_ok.bind (.throw e u), fun _ h => (nomatch h), fun _ _ hready hstays => ?_⟩
      obtain ⟨cs, hcs⟩ := ht.executions hready
      exact (hclosed hready).unclosed hcs hstays

end Idle

/-! ### The channel -/

/-- What taking over the controller of a channel comes to. -/
structure Opened (timing : Timing) (c : Channel EmulatedSdm) (r : Except MailboxError UInt32)
    (d : Channel EmulatedSdm) : Prop where
  /-- A controller that has been taken over is open, and the channel keeps the clock that it tells. -/
  taken : ∀ hz, r = .ok hz → d.registers.controllerOpen = true ∧ hz = c.registers.referenceClock ∧
    d.referenceClock = some hz
  /-- Otherwise the channel keeps what it had. -/
  kept : ∀ e, r = .error e → d.referenceClock = c.referenceClock
  /-- The controller is left open only if the last close has not been carried out. -/
  unclosed : ∀ e, r = .error e → Ready timing c.registers → d.registers.controllerOpen = true →
    Unclosed c.registers d.registers

/-- A channel keeps the clock that its controller tells. -/
theorem ends_openController {c : Channel EmulatedSdm} {r : Except MailboxError UInt32}
    (h : Ends (host timing).takeController c.registers r t) : Ends (host timing).openController c r
      { registers := t, referenceClock := match r with | .ok hz => some hz | .error _ => c.referenceClock } := by
  have hchannel : Ends (ExceptT.mk (Channel.onRegisters (host timing).takeController.run)) c r
      { c with registers := t } := by
    show Returns (Channel.onRegisters _) c r _
    exact h.focus
  unfold openController
  cases r with
  | ok hz => exact hchannel.bind <| (Ends.modify _ _).bind (.pure hz _)
  | error e => exact hchannel.bind_error

/-- **No controller is left half open**, whatever commands fail in whatever attempts: a call that succeeds leaves the
controller open and the channel with its clock, and one that fails leaves the channel as it was. If answers are heard in
time, a call that fails leaves the controller open only if the last close has been answered without being carried
out. -/
theorem openController_opens (c : Channel EmulatedSdm) (hb : Idle c.registers) (hquiet : c.registers.queue = [])
    (hpolls : 0 < timing.commandPolls) (hdata : 0 < timing.dataPolls) :
    ∃ r d, Ends (host timing).openController c r d ∧ Opened timing c r d := by
  obtain ⟨r, t, htake, htaken, hunclosed⟩ := takeController_spec timing hb hquiet hpolls hdata
  refine ⟨r, _, ends_openController htake, fun hz hok => ?_, fun e he => ?_, hunclosed⟩
  · subst hok
    obtain ⟨hopen, hclock⟩ := htaken hz rfl
    exact ⟨hopen, hclock, rfl⟩
  · subst he
    rfl

/-- Direct access is to fail once, and a close to be answered as if it had been carried out. -/
def lying : EmulatedSdm :=
  { (fresh {}) with failures := [⟨Command.qspiDirect.opcode, 0x3ff, 1⟩, ⟨Command.qspiClose.opcode, 0, 1⟩] }

theorem idle_lying : Idle lying :=
  ⟨⟨rfl, by decide, by decide, by decide, by decide, rfl, rfl⟩, rfl, rfl, rfl, rfl⟩

theorem openController_opens_lying :
    ∃ r d, Ends (host {}).openController ⟨lying, none⟩ r d ∧ Opened {} ⟨lying, none⟩ r d :=
  openController_opens ⟨lying, none⟩ idle_lying rfl (by decide) (by decide)

/-- The controller is left open although the only close is answered well. -/
theorem controller_left_open : ∃ d, Ends (host {}).openController ⟨lying, none⟩ (.error (.firmware 0x3ff)) d ∧
    d.registers.controllerOpen = true ∧
    d.registers.log.toList = [Command.qspiOpen.plain, Command.qspiDirect.plain, Command.qspiClose.plain] ∧
    (answer Command.qspiClose.plain (lying.after [Command.qspiOpen.plain, Command.qspiDirect.plain])).header.code =
      ResponseCode.ok.value := by
  obtain ⟨r, t, htake, -⟩ := takeController_spec {} idle_lying rfl (by decide) (by decide)
  obtain ⟨rfl, hopen, hlog⟩ := htake.tested
    (P := fun (r : Except MailboxError UInt32) t => r = .error (.firmware 0x3ff) ∧ t.controllerOpen = true ∧
      t.log.toList = [Command.qspiOpen.plain, Command.qspiDirect.plain, Command.qspiClose.plain])
    (by decide +kernel)
  -- the channel is named, since finding it by unification would run the driver
  have hchannel : Ends (host {}).openController ⟨lying, none⟩ (.error (.firmware 0x3ff)) ⟨t, none⟩ :=
    ends_openController (c := ⟨lying, none⟩) htake
  exact ⟨_, hchannel, hopen, hlog, by decide +kernel⟩

/-- Commands are seen 17 polls after they were sent, by a driver that polls five times. -/
def belated : EmulatedSdm :=
  { (fresh {}) with consumeDelay := 17 }

theorem idle_belated : Idle belated :=
  ⟨⟨rfl, by decide, by decide, by decide, by decide, rfl, rfl⟩, rfl, rfl, rfl, rfl⟩

/-- Answers that come too late for their attempts are taken for those of later commands. The last open is carried out
after the only close, which was carried out as well. -/
theorem late_open_reopens : ∃ d, Ends (host { doorbellPolls := 5 }).openController ⟨belated, none⟩
      (.error .timeout) d ∧ d.registers.controllerOpen = true ∧ ¬ Ready { doorbellPolls := 5 } belated ∧
    ¬ Unclosed belated d.registers := by
  obtain ⟨r, t, htake, -⟩ :=
    takeController_spec { doorbellPolls := 5 } idle_belated rfl (by decide) (by decide)
  obtain ⟨rfl, hopen, hlog⟩ := htake.tested
    (P := fun (r : Except MailboxError UInt32) t => r = .error .timeout ∧ t.controllerOpen = true ∧
      t.log.toList = List.replicate 3 Command.qspiOpen.plain ++
        Command.qspiClose.plain :: List.replicate 3 Command.qspiOpen.plain)
    (by decide +kernel)
  have hchannel : Ends (host { doorbellPolls := 5 }).openController ⟨belated, none⟩ (.error .timeout) ⟨t, none⟩ :=
    ends_openController (c := ⟨belated, none⟩) htake
  refine ⟨_, hchannel, hopen, ?_, ?_⟩
  · intro hready
    exact absurd hready.soon (by decide)
  · rintro ⟨before, later, hparts, -, hinjected, -⟩
    -- there is but one close, and nothing is planned to fail
    have hsplit : List.replicate 3 Command.qspiOpen.plain ++
        Command.qspiClose.plain :: List.replicate 3 Command.qspiOpen.plain =
          before ++ Command.qspiClose.plain :: later := hlog.symm.trans (hparts.trans rfl)
    obtain ⟨rfl, -⟩ := (List.append_cons_inj_of_notMem (by decide) (by decide)).mp hsplit
    exact absurd hinjected (by decide +kernel)

end Mailbox

end RemoteUpdate
