import RemoteUpdate.Proofs.Mailbox.Calls

/-!
# The patience of the driver

However a register block behaves, no call waits for ever. Each loop of the driver has a budget, and what it
does on the way to its end is counted against the budget: delays for each word that is sent or awaited, looks
at the doorbell and responses to others for a whole attempt.
-/

namespace RemoteUpdate

theorem ScriptedBlock.responsive : Responsive fun _ : ScriptedBlock => True where
  read offset {b} _ := by
    cases h : ScriptedBlock.dequeue offset b.queues with
    | none =>
      refine ⟨b.registers.get offset, b, (Returns.get b).bind ?_, trivial⟩
      rw [h]
      exact .pure _ b
    | some r =>
      refine ⟨r.1, { b with queues := r.2 }.store [(offset, r.1)], (Returns.get b).bind ?_, trivial⟩
      rw [h]
      exact (Returns.set _ _).bind (.pure _ _)
  write offset value {b} _ := ⟨_, Returns.modify _ b, trivial⟩
  delay micros {b} _ := ⟨_, Returns.modify _ b, trivial⟩

namespace Mailbox

variable {ρ : Type} [RegisterBlock ρ] {I : ρ → Prop}

omit [RegisterBlock ρ] in
theorem delays_recorded {r : Recorder ρ} {trail : Trail} (h : r.accesses.toList = trail.accesses) :
    r.delays.length = trail.delays := by
  unfold Recorder.delays Trail.delays
  rw [h, List.length_filterMap_eq_countP, Trail.accesses, List.countP_map]
  congr 1
  funext ⟨p, a⟩
  cases a <;> rfl

theorem Conducts.recorded {m : Mailbox (Recorder ρ)} {α : Type} {x : RegisterM (Recorder ρ) α} {p : Stage}
    {Q : α → Trail → Stage → Prop} (h : Conducts m (fun r => I r.block) x p Q) {s : ρ} (hs : I s) :
    ∃ a r trail q, Returns x { block := s } a r ∧ Path m p { block := s } trail q r ∧
      r.accesses.toList = trail.accesses ∧ Q a trail q := by
  obtain ⟨a, r, trail, q, hx, -, hpath, ha⟩ := h { block := s } hs
  exact ⟨a, r, trail, q, hx, hpath, hpath.recorded, ha⟩

/-- Whatever a register block answers, every wait ends. For each word that is sent, and for each data word
that is awaited, the driver waits at most as often as the timing says. An attempt ends after a bounded number
of accesses, and its looks at the doorbell together with the responses to others that it takes are at most
one more than the timing says. A command is tried at most as often as the timing says, and if nothing but
responses to others comes, time runs out. -/
theorem waits_bounded (hI : Responsive I) (m : Mailbox (Recorder ρ)) (hcommand : m.map.commandSlots ≠ 0)
    (hresponse : m.map.responseSlots ≠ 0) {s : ρ} (hs : I s) (opcode : UInt32) (arguments : List UInt32)
    (urgent : Bool) :
    (∀ cin word, ∃ result r, Ends (m.writeWord cin word) { block := s } result r ∧
      r.delays.length ≤ m.timing.commandPolls) ∧
    (∀ rout, ∃ came r, Returns (m.waitWord rout) { block := s } came r ∧
      r.delays.length ≤ m.timing.dataPolls) ∧
    (∀ room, ∃ a r trail q h, Returns (m.attempt opcode arguments urgent room) { block := s } a r ∧
      Path m (outset urgent) { block := s } trail q r ∧ r.accesses.toList = trail.accesses ∧
      m.Accounted opcode arguments urgent a trail h) ∧
    ∀ {n : Nat} (buffer : Vector UInt32 n), ∃ result r tries,
      Returns (m.send opcode arguments urgent buffer) { block := s } result r ∧
      Course m (fun p => p = outset urgent ∨ p = .idle) { block := s } (tries.flatMap (Try.trails m)) r ∧
      r.accesses.toList = Trail.accesses (tries.flatMap (Try.trails m)).flatten ∧
      m.Repeated opcode arguments urgent (max 1 m.timing.retries) tries result.1 ∧
      (urgent = false → opcode ≤ maxOpcode → arguments.length ≤ maxArguments →
        (∀ x ∈ tries, ∀ header ∈ x.haul.headers, header.answers m.client m.transaction = false) →
        result.1 = .error .timeout) := by
  have hrec := Recorder.responsive hI
  refine ⟨?_, ?_, ?_, ?_⟩
  · -- one word sent
    intro cin word
    obtain ⟨result, r, trail, q, hwrite, -, hrecord, hwithin, -⟩ :=
      (conducts_writeWord hrec hcommand cin word).recorded hs
    exact ⟨result, r, hwrite, delays_recorded hrecord ▸ hwithin.delays⟩
  · -- one word awaited
    intro rout
    obtain ⟨came, r, trail, q, hwait, -, hrecord, hwithin, -⟩ :=
      (conducts_waitWord hrec hresponse rout).recorded hs
    exact ⟨came, r, hwait, delays_recorded hrecord ▸ hwithin.delays⟩
  · -- one attempt
    intro room
    obtain ⟨a, r, trail, q, hattempt, hpath, hrecord, h, ha⟩ :=
      (conducts_attempt hrec hcommand hresponse opcode arguments urgent room).recorded hs
    exact ⟨a, r, trail, q, h, hattempt, hpath, hrecord, ha⟩
  · -- all the attempts of a call
    intro n buffer
    -- attempts open at the outset and the pauses between them at idle
    let opens (p : Stage) : Prop := p = outset urgent ∨ p = .idle
    have hundertakes : Undertakes m (fun r => I r.block) opens _ _ :=
      undertakes_send hrec hcommand hresponse opcode arguments urgent buffer (.inl rfl) (.inr rfl)
    obtain ⟨result, r, _, hsend, -, hcourse, tries, htries, rfl⟩ := hundertakes { block := s } hs
    refine ⟨result, r, tries, hsend, hcourse, hcourse.recorded, htries, ?_⟩
    rintro rfl hopcode harguments hstrays
    exact htries.unanswered hopcode harguments hstrays

/-- A block that raises its doorbell again whenever it is cleared, and always has five more responses, none
of them for the host. -/
def flood : ScriptedBlock :=
  { registers := [(0x480, 1), (0x24, 5)], onWrite := [(0x480, 0x480, 1), (0x04, 0x04, 0)] }

/-- A host that looks at the doorbell eight times, and tries a command twice. -/
def hasty : Mailbox (Recorder ScriptedBlock) :=
  { timing := { doorbellPolls := 8, retries := 2 } }

theorem waits_bounded_flood : ∃ result r tries,
    Returns (hasty.send 4 [] false noData) { block := flood } result r ∧
      hasty.Repeated 4 [] false 2 tries result.1 ∧ result.1 = .error .timeout := by
  obtain ⟨-, -, -, hsend⟩ :=
    waits_bounded ScriptedBlock.responsive hasty (by decide) (by decide) (s := flood) trivial 4 [] false
  obtain ⟨result, r, tries, hrun, -, -, htries, -⟩ := hsend noData
  have htimeout := hrun.computed (f := fun result _ => result.1) (c := .error .timeout) (by decide +kernel)
  exact ⟨result, r, tries, hrun, htries, htimeout⟩

end Mailbox

end RemoteUpdate
