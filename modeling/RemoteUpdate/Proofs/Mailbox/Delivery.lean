import RemoteUpdate.Proofs.Mailbox.Soundness

/-!
# What reaches the device manager

Words reach the device manager in the order in which the host writes them, whatever the device manager does
meanwhile. A host that loses patience in the middle of a command leaves the front of the command in the ring,
and the words of the next command are taken for the rest of it. A host that is patient enough never does.
-/

namespace RemoteUpdate

namespace EmulatedSdm

variable {s t : EmulatedSdm} {words : List UInt32}

def received (s : EmulatedSdm) : Received :=
  ⟨s.log.toList, s.partialCommand⟩

/-- What it will have received once it has seen every word in the command ring. -/
def awaited (s : EmulatedSdm) : Received :=
  s.commandWords.foldl .next s.received

theorem received_absorb (s : EmulatedSdm) (word : UInt32) :
    (s.absorb word).received = s.received.next word := by
  unfold absorb Received.next received
  simp only
  split
  · rfl
  · rw [executed_partial]
    show (⟨(s.log.push (extended word s.partialCommand)).toList, none⟩ : Received) = _
    rw [Array.toList_push]

theorem received_absorbAll (s : EmulatedSdm) (words : List UInt32) :
    (words.foldl absorb s).received = words.foldl .next s.received := by
  induction words generalizing s with
  | nil => rfl
  | cons word words ih => rw [List.foldl_cons, ih, received_absorb, List.foldl_cons]

theorem received_caughtUp (s : EmulatedSdm) : s.caughtUp.received = s.awaited :=
  received_absorbAll _ _

theorem log_awaited (s : EmulatedSdm) : s.log.toList <+: s.awaited.complete :=
  Received.prefix_all s.received s.commandWords

theorem awaited_congr (h : t.core = s.core) : t.awaited = s.awaited :=
  congr_core awaited h

theorem Advances.awaited (h : Advances s t) : t.awaited = s.awaited := by
  rw [← received_caughtUp, ← received_caughtUp, h.caughtUp]

theorem Sent.awaited (h : Sent words s t) : t.awaited = words.foldl .next s.awaited := by
  rw [← received_caughtUp, ← received_caughtUp, h.caughtUp, received_absorbAll]

end EmulatedSdm

open EmulatedSdm

/-! ### Fragments -/

/-- A command, and what the host has written of it. -/
structure Fragment where
  command : LoggedCommand
  written : List UInt32
  whole : command.Whole
  front : written <+: command.words

namespace Fragment

def stream (fs : List Fragment) : List UInt32 :=
  fs.flatMap written

theorem received_stream (fs : List Fragment) (h : ∀ f ∈ fs, f.written = f.command.words)
    (cs : List LoggedCommand) :
    (stream fs).foldl .next ⟨cs, none⟩ = (⟨cs ++ fs.map command, none⟩ : Received) := by
  induction fs generalizing cs with
  | nil => simp [stream]
  | cons f fs ih =>
    have hfirst : f.written = f.command.words := h f List.mem_cons_self
    have hrest := ih (fun f hf => h f (List.mem_cons_of_mem _ hf)) (cs ++ [f.command])
    rw [stream, List.flatMap_cons, List.foldl_append, hfirst, Received.next_words f.whole]
    rw [stream] at hrest
    rw [hrest, List.map_cons, List.append_assoc, List.singleton_append]

end Fragment

namespace Mailbox

/-- The host has written fragments of commands of this kind, and nothing else. If it is `patient`, it has
written the commands whole. -/
structure Delivered (timing : Timing) (Kind : LoggedCommand → Prop) (patient : Prop)
    (s : EmulatedSdm) : Prop where
  sound : s.Sound
  urgent : s.urgent = 0
  clock : s.countdown ≠ some 0
  outlasts : patient → timing.Outlasts s
  awaited : ∃ fs : List Fragment, (∀ f ∈ fs, Kind f.command) ∧
    (patient → ∀ f ∈ fs, f.written = f.command.words) ∧
    s.awaited = (Fragment.stream fs).foldl .next {}

variable {timing : Timing} {Kind : LoggedCommand → Prop} {patient : Prop} {s t : EmulatedSdm}

namespace Delivered

theorem advances (h : Delivered timing Kind patient s) (h' : Advances s t) :
    Delivered timing Kind patient t where
  sound := h'.sound
  urgent := h'.urgent.trans h.urgent
  clock := h'.clock.ne_zero h.clock
  outlasts hp := (h.outlasts hp).counting h'.consumeDelay h'.clock
  awaited := h'.awaited ▸ h.awaited

theorem core (h : Delivered timing Kind patient s) (hsound : t.Sound) (hcore : t.core = s.core) :
    Delivered timing Kind patient t where
  sound := hsound
  urgent := (congr_core EmulatedSdm.urgent hcore).trans h.urgent
  clock := (congr_core EmulatedSdm.countdown hcore).trans_ne h.clock
  outlasts hp := (h.outlasts hp).counting (congr_core EmulatedSdm.consumeDelay hcore)
    (.of_eq (congr_core EmulatedSdm.countdown hcore))
  awaited := awaited_congr hcore ▸ h.awaited

theorem sent (h : Delivered timing Kind patient s) (f : Fragment) (hkind : Kind f.command)
    (hwhole : patient → f.written = f.command.words) (h' : Sent f.written s t) :
    Delivered timing Kind patient t where
  sound := h'.sound
  urgent := h'.urgent.trans h.urgent
  clock := h'.clock.ne_zero h.clock
  outlasts hp := (h.outlasts hp).counting h'.consumeDelay h'.clock
  awaited := by
    obtain ⟨fs, hkinds, hwholes, hawaited⟩ := h.awaited
    refine ⟨fs ++ [f], ?_, ?_, ?_⟩
    · intro g hg
      rcases List.mem_append.mp hg with hg | hg
      · exact hkinds g hg
      · exact List.mem_singleton.mp hg ▸ hkind
    · intro hp g hg
      rcases List.mem_append.mp hg with hg | hg
      · exact hwholes hp g hg
      · exact List.mem_singleton.mp hg ▸ hwhole hp
    · rw [h'.awaited, hawaited, ← List.foldl_append]
      simp [Fragment.stream]

theorem steady : Steady (Delivered timing Kind patient) where
  sound h := h.sound
  ticked h := h.advances (advances_ticked h.sound)
  cleared h := h.core ⟨h.sound.map, h.sound.cin, h.sound.cout, h.sound.rin, h.sound.rout,
    h.sound.commandCells, h.sound.responseCells⟩ rfl
  turned {s rout} h hrout := by
    have hturned : Sound { s with rout } :=
      ⟨h.sound.map, h.sound.cin, h.sound.cout, h.sound.rin, hrout, h.sound.commandCells,
        h.sound.responseCells⟩
    obtain ⟨hsound, -, hcore, -⟩ := published_spec hturned
    exact h.core hsound hcore

/-- Sending a command writes a fragment of it, and a host that is patient writes it whole. -/
theorem sendCommand {opcode : UInt32} {arguments : List UInt32}
    (hkind : opcode ≤ maxOpcode → Kind (.fromHost opcode arguments)) :
    Tries (Delivered timing Kind patient) ((host timing).sendCommand opcode false arguments)
      Whatever := by
  intro s h
  by_cases hvalid : maxOpcode < opcode ∨ maxArguments < arguments.length
  · exact ⟨_, s, sendCommand_invalid s hvalid, h, fun _ _ => trivial⟩
  obtain ⟨hopcode, harguments⟩ := valid_iff.mp hvalid
  have hwhole : (LoggedCommand.fromHost opcode arguments).Whole :=
    LoggedCommand.whole_fromHost harguments
  obtain ⟨r, t, hwrite, hcases⟩ := writeWords_sent timing h.sound h.urgent h.clock
    (LoggedCommand.fromHost opcode arguments).words
  rcases hcases with ⟨rfl, hsent, -⟩ | ⟨rfl, himpatient, front, rest, hwords, -, hsent⟩
  · let f : Fragment := ⟨.fromHost opcode arguments, _, hwhole, List.prefix_rfl⟩
    have hdelivered := h.sent f (hkind hopcode) (fun _ => rfl) hsent
    exact ⟨_, _, sendCommand_ok h.sound hopcode harguments hdelivered.urgent hdelivered.sound hwrite,
      hdelivered.advances (advances_rung hdelivered.sound), fun _ _ => trivial⟩
  · let f : Fragment := ⟨.fromHost opcode arguments, front, hwhole, rest, hwords.symm⟩
    have hdelivered := h.sent f (hkind hopcode) (fun hp => absurd (h.outlasts hp) himpatient) hsent
    exact ⟨_, t, sendCommand_error h.sound hopcode harguments hwrite, hdelivered, fun _ _ => trivial⟩

theorem fresh (hp : patient → timing.Patient 0) : Delivered timing Kind patient (fresh {}) where
  sound := sound_fresh
  urgent := rfl
  clock := by decide
  outlasts h := ⟨hp h, fun _ hc => nomatch hc⟩
  awaited := ⟨[], fun _ h => (List.not_mem_nil h).elim, fun _ _ h => (List.not_mem_nil h).elim, rfl⟩

end Delivered

/-! ### Runs -/

/-- What may happen at a mailbox that is not used for urgent commands: commands are sent, whether the host
waits for the answer or not, and things go wrong. -/
inductive Traffic where
  | send (opcode : UInt32) (arguments : List UInt32) (room : Nat)
  | sendOnly (opcode : UInt32) (arguments : List UInt32)
  | fault (f : Fault)

namespace Traffic

/-- It happens, whatever comes of it. -/
def perform (timing : Timing) : Traffic → RegisterM EmulatedSdm Unit
  | .send opcode arguments room =>
    discard ((host timing).send opcode arguments false (Vector.replicate room 0))
  | .sendOnly opcode arguments => discard ((host timing).sendCommand opcode false arguments).run
  | .fault f => modify f.inject

def run (timing : Timing) : List Traffic → RegisterM EmulatedSdm Unit
  | [] => pure ()
  | step :: steps => do
    step.perform timing
    run timing steps

/-- The host was asked to send a command with this opcode and these arguments. -/
def Asks (c : LoggedCommand) : Traffic → Prop
  | .send opcode arguments _ | .sendOnly opcode arguments =>
    c.header.opcode = opcode ∧ c.arguments = arguments
  | .fault _ => False

instance (c : LoggedCommand) : DecidablePred (Asks c)
  | .send _ _ _ | .sendOnly _ _ => inferInstanceAs (Decidable (_ ∧ _))
  | .fault _ => inferInstanceAs (Decidable False)

/-- The host waits long enough for every delay of the device manager. -/
def Patient (timing : Timing) (steps : List Traffic) : Prop :=
  timing.Patient 0 ∧ ∀ ticks, .fault (.consumeDelay ticks) ∈ steps → timing.Patient ticks

variable {timing : Timing} {steps : List Traffic} {step : Traffic} {s : EmulatedSdm}

/-- One of the steps asks for the command. -/
def AsksFor (steps : List Traffic) (c : LoggedCommand) : Prop :=
  ∃ step ∈ steps, step.Asks c

theorem asks_fromHost {opcode : UInt32} {arguments : List UInt32} (h : opcode ≤ maxOpcode) :
    (LoggedCommand.fromHost opcode arguments).header.opcode = opcode :=
  CommandHeader.opcode_make h

theorem delivered_inject (h : Delivered timing Kind patient s) (f : Fault)
    (hp : patient → ∀ ticks, f = .consumeDelay ticks → timing.Patient ticks) :
    Delivered timing Kind patient (f.inject s) := by
  have hsound := f.keeps_inject h.sound
  cases f with
  | consumeDelay ticks =>
    exact ⟨hsound, h.urgent, h.clock, fun hpatient => ⟨hp hpatient ticks rfl, (h.outlasts hpatient).clock⟩,
      h.awaited⟩
  | _ => exact ⟨hsound, h.urgent, h.clock, fun hp => ⟨(h.outlasts hp).delay, (h.outlasts hp).clock⟩, h.awaited⟩

theorem keeps_perform (hstep : step ∈ steps) :
    Keeps (Delivered timing (AsksFor steps) (Patient timing steps)) (step.perform timing) Whatever := by
  have sends : ∀ {opcode arguments}, (∀ c : LoggedCommand, c.header.opcode = opcode ∧ c.arguments = arguments →
      step.Asks c) → Tries (Delivered timing (AsksFor steps) (Patient timing steps))
        ((host timing).sendCommand opcode false arguments) Whatever := by
    intro opcode arguments hasks
    exact Delivered.sendCommand fun hopcode => ⟨step, hstep, hasks _ ⟨asks_fromHost hopcode, rfl⟩⟩
  cases step with
  | send opcode arguments room =>
    exact (Delivered.steady.send timing (Delivered.steady.attempt timing (sends fun _ h => h) room) _).discard
  | sendOnly opcode arguments => exact (sends fun _ h => h).run.discard
  | fault f =>
    intro s h
    refine ⟨_, _, .modify _ s, delivered_inject h f ?_, trivial⟩
    rintro hp ticks rfl
    exact hp.2 ticks hstep

/-- No run is aborted, and every run writes fragments of the commands asked for, and nothing else. -/
theorem keeps_run (timing : Timing) (steps : List Traffic) :
    Keeps (Delivered timing (AsksFor steps) (Patient timing steps)) (run timing steps) Whatever := by
  have loop : ∀ later, (∀ step ∈ later, step ∈ steps) →
      Keeps (Delivered timing (AsksFor steps) (Patient timing steps)) (run timing later) Whatever := by
    intro later hlater
    induction later with
    | nil => exact .pure trivial
    | cons step later ih =>
      refine (keeps_perform (hlater step List.mem_cons_self)).bind fun _ _ => ?_
      exact ih fun step h => hlater step (List.mem_cons_of_mem _ h)
  exact loop steps fun _ h => h

/-- Whatever happens, the device manager executes what it reads from fragments of the commands asked for, in
the order in which they were written. -/
theorem run_fragments (timing : Timing) (steps : List Traffic) : ∃ s fs,
    Returns (run timing steps) (fresh {}) () s ∧
      (∀ f ∈ fs, AsksFor steps (Fragment.command f)) ∧
      s.log.toList <+: ((Fragment.stream fs).foldl Received.next {}).complete := by
  obtain ⟨_, s, hrun, hs, -⟩ :=
    keeps_run timing steps (fresh {}) (Delivered.fresh fun hp => hp.1)
  obtain ⟨fs, hasked, -, hawaited⟩ := hs.awaited
  exact ⟨s, fs, hrun, hasked, hawaited ▸ log_awaited s⟩

/-- If the host is patient, every command in the log is one that it was asked to send. -/
theorem run_log (timing : Timing) (steps : List Traffic) (hp : Patient timing steps) :
    ∃ s, Returns (run timing steps) (fresh {}) () s ∧
      ∀ c ∈ s.log.toList, ∃ step ∈ steps, step.Asks c := by
  obtain ⟨_, s, hrun, hs, -⟩ :=
    keeps_run timing steps (fresh {}) (Delivered.fresh fun hp => hp.1)
  obtain ⟨fs, hasked, hwhole, hawaited⟩ := hs.awaited
  refine ⟨s, hrun, fun c hc => ?_⟩
  have hlog := (log_awaited s).subset hc
  rw [hawaited, Fragment.received_stream fs (hwhole hp), List.nil_append] at hlog
  obtain ⟨f, hf, rfl⟩ := List.mem_map.mp hlog
  exact hasked f hf

/-- A command that does not fit into the ring, with so many ticks until the ring is emptied, and another
command. -/
def crowded (ticks : Nat) : List Traffic :=
  [.fault (.consumeDelay ticks), .sendOnly 93 (.replicate 31 7), .fault (.consumeDelay 0), .sendOnly 4 []]

theorem run_log_crowded : ∃ s, Returns (run {} (crowded 5)) (fresh {}) () s ∧
    s.log.toList = [.fromHost 93 (.replicate 31 7), .fromHost 4 []] ∧
    ∀ c ∈ s.log.toList, ∃ step ∈ crowded 5, step.Asks c := by
  have hpatient : Patient {} (crowded 5) := by
    refine ⟨by decide, fun ticks h => ?_⟩
    have hticks : ticks = 5 ∨ ticks = 0 := by simpa [crowded] using h
    rcases hticks with rfl | rfl <;> decide
  obtain ⟨s, hrun, hlog⟩ := run_log {} (crowded 5) hpatient
  have hseen := hrun.computed (c := [.fromHost 93 (.replicate 31 7), .fromHost 4 []])
    (f := fun _ s => s.log.toList) (by decide +kernel)
  exact ⟨s, hrun, hseen, hlog⟩

/-- An impatient host leaves the front of a command in the ring, and the header of the next command is taken
for the last argument. -/
theorem run_log_cut : ∃ s, Returns (run {} (crowded 1000)) (fresh {}) () s ∧
    ∃ c ∈ s.log.toList, ¬ ∃ step ∈ crowded 1000, step.Asks c := by
  obtain ⟨_, s, hrun, -, -⟩ :=
    keeps_run {} (crowded 1000) (fresh {}) (Delivered.fresh fun hp => hp.1)
  exact ⟨s, hrun, hrun.tested (P := fun _ s => ∃ c ∈ s.log.toList,
    ¬ ∃ step ∈ crowded 1000, step.Asks c) (by decide +kernel)⟩

end Traffic

end Mailbox

end RemoteUpdate
