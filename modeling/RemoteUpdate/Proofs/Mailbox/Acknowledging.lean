import RemoteUpdate.Proofs.Mailbox.Restarting

/-!
# Acknowledgements of urgent commands

An urgent command is acknowledged by a bit that moves, and announced by a doorbell that may get lost. The driver
waits for the doorbell before it looks at the bit, and sends the command again if it hears nothing: the bit then
moves once for each attempt. `Tally` counts how often it moves. No bit moves in a call in which it is frozen, and
if no doorbell gets lost it moves once in a call that succeeds and not at all in one that fails.
-/

namespace RemoteUpdate

open EmulatedSdm

namespace EmulatedSdm

variable {s t u : EmulatedSdm}

/-! ### What stays -/

/-- The device manager hears the next urgent command as it would have heard it before, though doorbells may have
got lost since. -/
structure HearsAs (s t : EmulatedSdm) : Prop where
  sound : t.Sound
  urgent : t.urgent = s.urgent
  frozen : t.acknowledgeFrozen = s.acknowledgeFrozen
  lost : ∀ d, s.lostDoorbells = some d → ∃ d' ≤ d, t.lostDoorbells = some d'

/-- Time passes: the status register stays too. -/
structure Elapses (s t : EmulatedSdm) : Prop extends HearsAs s t where
  status : t.status = s.status

theorem HearsAs.trans (h : HearsAs s t) (h' : HearsAs t u) : HearsAs s u where
  sound := h'.sound
  urgent := h'.urgent.trans h.urgent
  frozen := h'.frozen.trans h.frozen
  lost d hd := by
    obtain ⟨d', hle, hd'⟩ := h.lost d hd
    obtain ⟨d'', hle', hd''⟩ := h'.lost d' hd'
    exact ⟨d'', hle'.trans hle, hd''⟩

namespace Elapses

theorem refl (hs : s.Sound) : Elapses s s :=
  ⟨⟨hs, rfl, rfl, fun d hd => ⟨d, Nat.le_refl d, hd⟩⟩, rfl⟩

theorem trans (h : Elapses s t) (h' : Elapses t u) : Elapses s u :=
  ⟨h.toHearsAs.trans h'.toHearsAs, h'.status.trans h.status⟩

theorem cleared (hs : s.Sound) : Elapses s { s with doorbell := 0 } :=
  ⟨⟨⟨hs.map, hs.cin, hs.cout, hs.rin, hs.rout, hs.commandCells, hs.responseCells⟩, rfl, rfl,
    fun d hd => ⟨d, Nat.le_refl d, hd⟩⟩, rfl⟩

end Elapses

theorem lost_raiseDoorbell {d : ℕ} (h : s.lostDoorbells = some d) :
    ∃ d' ≤ d, s.raiseDoorbell.lostDoorbells = some d' := by
  cases d with
  | zero =>
    rw [raiseDoorbell_eq h]
    exact ⟨0, Nat.le_refl 0, h⟩
  | succ d =>
    unfold raiseDoorbell
    rw [h]
    exact ⟨d, Nat.le_succ d, rfl⟩

theorem elapses_published (hs : s.Sound) : Elapses s s.published := by
  obtain ⟨hsound, -, hcore, -, -⟩ := published_spec hs
  obtain ⟨-, -, -, -, -, -, hlost⟩ := deliver_spec hs.ringed s.outbox
  refine ⟨⟨hsound, congr_core EmulatedSdm.urgent hcore, congr_core EmulatedSdm.acknowledgeFrozen hcore,
    fun d hd => ?_⟩, congr_core EmulatedSdm.status hcore⟩
  rw [← hlost] at hd
  unfold published
  split
  · exact lost_raiseDoorbell hd
  · exact ⟨d, Nat.le_refl d, hd⟩

theorem elapses_countdown (hs : s.Sound) (countdown : Option ℕ) : Elapses s { s with countdown } :=
  ⟨⟨⟨hs.map, hs.cin, hs.cout, hs.rin, hs.rout, hs.commandCells, hs.responseCells⟩, rfl, rfl,
    fun d hd => ⟨d, Nat.le_refl d, hd⟩⟩, rfl⟩

theorem elapses_consumed (hs : s.Sound) : Elapses s s.consumed := by
  have hemptied : Elapses s s.emptied := by
    refine ⟨⟨hs.emptied, ?_, ?_, fun d hd => ⟨d, Nat.le_refl d, ?_⟩⟩, ?_⟩ <;> rw [emptied_eq]
    exacts [rfl, rfl, hd, rfl]
  exact hemptied.trans (elapses_published hs.emptied)

theorem elapses_ticked (hs : s.Sound) : Elapses s s.ticked := by
  have stopped (countdown : Option ℕ) := elapses_countdown hs countdown
  unfold ticked
  split
  · exact (stopped _).trans (elapses_consumed (stopped _).sound)
  · exact (stopped _).trans (elapses_consumed (stopped _).sound)
  · exact (stopped _).trans (elapses_published (stopped _).sound)
  · exact elapses_published hs

/-! ### Acceptance -/

def acknowledge (s : EmulatedSdm) : UInt32 :=
  s.status &&& urgentAcknowledge

/-- What is in the register of urgent commands is taken out of it, and the bit moves unless it is frozen. -/
theorem accepted_spec (s : EmulatedSdm) : s.accepted.urgent = 0 ∧
    s.accepted.acknowledgeFrozen = s.acknowledgeFrozen ∧
    s.accepted.status = if s.acknowledgeFrozen then s.status else s.status ^^^ urgentAcknowledge := by
  have hraise {u : EmulatedSdm} {status : UInt32} (hu : u.urgent = 0)
      (hfrozen : u.acknowledgeFrozen = s.acknowledgeFrozen) (hstatus : u.status = status) :
      u.raiseDoorbell.urgent = 0 ∧ u.raiseDoorbell.acknowledgeFrozen = s.acknowledgeFrozen ∧
        u.raiseDoorbell.status = status := by
    obtain ⟨hcore, -⟩ := raiseDoorbell_spec u
    exact ⟨(congr_core EmulatedSdm.urgent hcore).trans hu,
      (congr_core EmulatedSdm.acknowledgeFrozen hcore).trans hfrozen,
      (congr_core EmulatedSdm.status hcore).trans hstatus⟩
  unfold accepted
  by_cases hrestart : s.urgent = Command.restart.opcode <;> by_cases hf : s.acknowledgeFrozen = true
  · simp only [if_pos hrestart, if_pos hf]
    exact hraise rfl rfl rfl
  · simp only [if_pos hrestart, if_neg hf]
    exact hraise rfl rfl rfl
  · simp only [if_neg hrestart, if_pos hf]
    exact hraise rfl rfl rfl
  · simp only [if_neg hrestart, if_neg hf]
    exact hraise rfl rfl rfl

/-- So the bit tells whether it is frozen. -/
theorem acknowledge_accepted (s : EmulatedSdm) :
    s.accepted.acknowledge = s.acknowledge ↔ s.acknowledgeFrozen = true := by
  unfold acknowledge
  rw [(accepted_spec s).2.2]
  cases s.acknowledgeFrozen with
  | true => simp
  | false => simpa using Ne.symm (acknowledge_xor s.status)

theorem accepted_doorbell (s : EmulatedSdm) :
    (s.lostDoorbells = some 0 → s.accepted.Raised ∧ s.accepted.lostDoorbells = some 0) ∧
    (∀ d, s.lostDoorbells = some (d + 1) → s.accepted.lostDoorbells = some d) ∧
    (s.lostDoorbells = none → s.accepted.lostDoorbells = none) := by
  have hraise {u : EmulatedSdm} (hu : u.lostDoorbells = s.lostDoorbells) :
      (s.lostDoorbells = some 0 → u.raiseDoorbell.Raised ∧ u.raiseDoorbell.lostDoorbells = some 0) ∧
      (∀ d, s.lostDoorbells = some (d + 1) → u.raiseDoorbell.lostDoorbells = some d) ∧
      (s.lostDoorbells = none → u.raiseDoorbell.lostDoorbells = none) := by
    refine ⟨fun h => ?_, fun d h => ?_, fun h => ?_⟩
    · rw [raiseDoorbell_eq (hu.trans h)]
      exact ⟨show (1 : UInt32) &&& 1 ≠ 0 by decide, hu.trans h⟩
    · unfold raiseDoorbell
      rw [hu, h]
    · unfold raiseDoorbell
      rw [hu, h]
      exact hu.trans h
  unfold accepted
  refine hraise ?_
  simp only
  split <;> split <;> rfl

/-- It has nothing to do, and the doorbell to the host is not raised. -/
structure Still (s : EmulatedSdm) : Prop where
  sound : s.Sound
  quiet : ¬ s.Raised
  idle : s.countdown = none
  published : s.Published

theorem Still.ticked (h : s.Still) : s.ticked = s :=
  ticked_idle h.idle h.published

/-- It stays so when it accepts a command whose doorbell gets lost. -/
theorem Still.accepted (h : s.Still) (hlost : s.lostDoorbells ≠ some 0) (opcode : UInt32) :
    (EmulatedSdm.accepted { s with urgent := opcode }).Still := by
  have hraise {u : EmulatedSdm} (hquiet : ¬ u.Raised) (hl : u.lostDoorbells = s.lostDoorbells)
      (hidle : u.countdown = none) (hpublished : u.Published) : ¬ u.raiseDoorbell.Raised ∧
        u.raiseDoorbell.countdown = none ∧ u.raiseDoorbell.Published := by
    unfold raiseDoorbell
    split
    next => exact ⟨hquiet, hidle, hpublished⟩
    next hnone => exact absurd (hl.symm.trans hnone) hlost
    next => exact ⟨hquiet, hidle, hpublished⟩
  have haccepted : ¬ (EmulatedSdm.accepted { s with urgent := opcode }).Raised ∧
      (EmulatedSdm.accepted { s with urgent := opcode }).countdown = none ∧
      (EmulatedSdm.accepted { s with urgent := opcode }).Published := by
    unfold EmulatedSdm.accepted
    simp only
    split <;> split
    · exact hraise h.quiet rfl rfl (.inl rfl)
    · exact hraise h.quiet rfl rfl (.inl rfl)
    · exact hraise h.quiet rfl h.idle h.published
    · exact hraise h.quiet rfl h.idle h.published
  exact ⟨(h.sound.registers _ _ _ _).accepted, haccepted.1, haccepted.2.1, haccepted.2.2⟩

/-- No doorbell is heard, and no bit is frozen. -/
structure Unheard (s : EmulatedSdm) : Prop extends Still s where
  lost : s.lostDoorbells = none
  moving : s.acknowledgeFrozen = false

theorem Unheard.accepted (h : s.Unheard) (opcode : UInt32) :
    (EmulatedSdm.accepted { s with urgent := opcode }).Unheard where
  toStill := h.toStill.accepted (by rw [h.lost]; nofun) opcode
  lost := (accepted_doorbell { s with urgent := opcode }).2.2 h.lost
  moving := (accepted_spec { s with urgent := opcode }).2.1.trans h.moving

end EmulatedSdm

/-! ### Counting -/

/-- A device manager, and how often its acknowledge bit has moved. -/
structure Tally where
  sdm : EmulatedSdm
  moves : ℕ := 0

namespace Tally

/-- How often the bit has moved from one access to the next. -/
def movesBetween (s t : EmulatedSdm) : ℕ :=
  if t.acknowledge = s.acknowledge then 0 else 1

/-- Runs a program on the device manager, and looks at the bit before and after. -/
def watch {α : Type} (x : RegisterM EmulatedSdm α) : RegisterM Tally α := do
  let before := (← get).sdm
  let a ← focus sdm (fun sdm f => { f with sdm }) x
  modify fun f => { f with moves := f.moves + movesBetween before f.sdm }
  return a

variable {α : Type} {x : RegisterM EmulatedSdm α} {s t : EmulatedSdm} {a : α}

theorem returns_watch (h : Returns x s a t) (n : ℕ) :
    Returns (watch x) ⟨s, n⟩ a ⟨t, n + movesBetween s t⟩ := by
  have hfocus : Returns (focus sdm (fun sdm f => { f with sdm }) x) ⟨s, n⟩ a ⟨t, n⟩ := h.focus
  exact (Returns.get _).bind <| hfocus.bind <| (Returns.modify _ _).bind (.pure a _)

theorem returns_watch_still (h : Returns x s a t) (hstatus : t.status = s.status) (n : ℕ) :
    Returns (watch x) ⟨s, n⟩ a ⟨t, n⟩ := by
  have hwatch := returns_watch h n
  rwa [movesBetween, if_pos (by rw [acknowledge, acknowledge, hstatus]), Nat.add_zero] at hwatch

end Tally

instance : RegisterBlock Tally where
  read offset := Tally.watch (RegisterBlock.read offset)
  write offset value := Tally.watch (RegisterBlock.write offset value)
  delay micros := Tally.watch (RegisterBlock.delay micros)

namespace Mailbox

variable {timing : Timing} {s t : EmulatedSdm} {opcode : UInt32} {arguments : List UInt32} {room : ℕ}

/-- The driver, with a device manager whose acknowledgements are counted. -/
def counted (timing : Timing) : Mailbox Tally :=
  { timing }

/-! ### One attempt -/

section Attempt

theorem counted_read (timing : Timing) (offset : UInt32) (s : EmulatedSdm) (n : ℕ) :
    Returns ((counted timing).read offset) ⟨s, n⟩ (s.readRegister offset) ⟨s, n⟩ :=
  Tally.returns_watch_still (returns_read timing offset s) rfl n

theorem counted_log (e : MailboxEvent) (f : Tally) : Returns ((counted timing).log e) f () f :=
  Returns.emit _ f

variable (hs : s.Sound) (n : ℕ)
include hs

theorem counted_delay (timing : Timing) (micros : ℕ) :
    Returns ((counted timing).delay micros) ⟨s, n⟩ () ⟨s.ticked, n⟩ :=
  Tally.returns_watch_still (returns_tick hs) (elapses_ticked hs).status n

theorem counted_takeDoorbell (timing : Timing) : Returns (counted timing).takeDoorbell ⟨s, n⟩
    (decide s.Raised) ⟨if s.Raised then { s with doorbell := 0 } else s, n⟩ := by
  have hread := counted_read timing ({} : RegisterMap).doorbellFromSdm s n
  rw [show s.readRegister ({} : RegisterMap).doorbellFromSdm = s.doorbell by
    rw [← hs.map, hs.unshared.read_doorbell]] at hread
  have hclear : Returns ((counted timing).write ({} : RegisterMap).doorbellFromSdm 0) ⟨s, n⟩ ()
      ⟨{ s with doorbell := 0 }, n⟩ := Tally.returns_watch_still (returns_clear hs) rfl n
  unfold takeDoorbell
  refine hread.bind ?_
  by_cases hraised : s.Raised
  · rw [if_neg hraised, if_pos hraised, decide_eq_true hraised]
    exact hclear.bind (.pure true _)
  · rw [if_pos (not_not.mp hraised), if_neg hraised, decide_eq_false hraised]
    exact .pure false _

/-- Nothing is counted while the driver waits for the doorbell. It need not wait for one that is raised. -/
theorem counted_waitDoorbell (timing : Timing) (budget : ℕ) : ∃ r t,
    Ends ((counted timing).waitDoorbell budget) ⟨s, n⟩ r ⟨t, n⟩ ∧ Elapses s t ∧
      (r = .ok () ∨ r = .error .timeout) ∧ (0 < budget → s.Raised → r = .ok ()) := by
  induction budget generalizing s with
  | zero => exact ⟨_, s, (Ends.lift (counted_log _ _)).bind (.throw _ _), .refl hs, .inr rfl, nofun⟩
  | succ budget ih =>
    have htake := counted_takeDoorbell hs n timing
    unfold waitDoorbell
    by_cases hraised : s.Raised
    · rw [if_pos hraised, decide_eq_true hraised] at htake
      exact ⟨.ok (), _, (Ends.lift htake).bind (.pure () _), .cleared hs, .inl rfl, fun _ _ => rfl⟩
    · rw [if_neg hraised, decide_eq_false hraised] at htake
      have helapses := elapses_ticked hs
      obtain ⟨r, t, hrest, ht, hr, -⟩ := ih helapses.sound
      exact ⟨r, t, (Ends.lift htake).bind <| (Ends.lift (counted_delay hs n timing _)).bind hrest,
        helapses.trans ht, hr, fun _ h => absurd h hraised⟩

/-- The command is accepted as soon as the doorbell of the device manager is rung. -/
theorem counted_shout (hopcode : opcode ≠ 0) :
    Returns ((counted timing).write ({} : RegisterMap).doorbellToSdm 1) ⟨{ s with urgent := opcode }, n⟩ ()
      ⟨accepted { s with urgent := opcode }, n + if s.acknowledgeFrozen then 0 else 1⟩ := by
  have hring : Returns (writeRegister ({} : RegisterMap).doorbellToSdm 1) { s with urgent := opcode } ()
      (accepted { s with urgent := opcode }) := by
    unfold writeRegister
    refine (Returns.get _).bind ?_
    simp only [hs.map]
    exact returns_onDoorbell_urgent hopcode
  have hmoves : Tally.movesBetween { s with urgent := opcode } (accepted { s with urgent := opcode }) =
      if s.acknowledgeFrozen then 0 else 1 := by
    unfold Tally.movesBetween
    simp only [acknowledge_accepted]
  rw [← hmoves]
  exact Tally.returns_watch hring n

end Attempt

/-- What an attempt to send an urgent command may come to. With a bit that is frozen it fails; with one that moves
it fails only if the driver hears no doorbell, and then one has got lost. -/
structure Shouted (s : EmulatedSdm) (r : Except MailboxError ℕ) (t : EmulatedSdm) : Prop where
  stays : HearsAs s t
  frozen : s.acknowledgeFrozen = true → r = .error .notAcknowledged ∨ r = .error .timeout
  moving : s.acknowledgeFrozen = false → r = .ok 0 ∨ r = .error .timeout
  missed : r = .error .timeout → ∀ d, s.lostDoorbells = some d → ∃ d' < d, t.lostDoorbells = some d'

/-- Once the driver has waited, the bit decides, whatever the doorbell that it has heard was for. -/
theorem counted_sendUrgent_of_wait {w : Except MailboxError Unit} (hs : s.Sound) (hopcode : opcode ≠ 0) {n : ℕ}
    (hwait : Ends ((counted timing).waitDoorbell timing.doorbellPolls)
      ⟨accepted { s with urgent := opcode }, n + if s.acknowledgeFrozen then 0 else 1⟩ w
      ⟨t, n + if s.acknowledgeFrozen then 0 else 1⟩)
    (helapses : Elapses (accepted { s with urgent := opcode }) t) (hw : w = .ok () ∨ w = .error .timeout) :
    Ends ((counted timing).sendUrgent opcode) ⟨s, n⟩ (match w with
      | .ok () => if s.acknowledgeFrozen then .error .notAcknowledged else .ok 0
      | .error e => .error e) ⟨t, n + if s.acknowledgeFrozen then 0 else 1⟩ := by
  have hmoved := acknowledge_accepted { s with urgent := opcode }
  have hbefore := counted_read timing ({} : RegisterMap).status s n
  rw [readRegister_status hs] at hbefore
  have hwrite : Returns ((counted timing).write ({} : RegisterMap).urgent opcode) ⟨s, n⟩ ()
      ⟨{ s with urgent := opcode }, n⟩ := Tally.returns_watch_still (returns_urgent hs opcode) rfl n
  have hafter := counted_read timing ({} : RegisterMap).status t (n + if s.acknowledgeFrozen then 0 else 1)
  rw [readRegister_status helapses.sound, helapses.status] at hafter
  unfold sendUrgent
  refine (Ends.lift hbefore).bind <| (Ends.lift hwrite).bind <| (Ends.lift (counted_shout hs n hopcode)).bind ?_
  -- the acknowledge bit is read only once the doorbell has come
  rcases hw with rfl | rfl
  · refine hwait.bind <| (Ends.lift hafter).bind ?_
    simp only [acknowledge] at hmoved
    dsimp only
    by_cases hf : s.acknowledgeFrozen = true
    · rw [if_pos (hmoved.mpr hf).symm, if_pos hf, if_pos hf]
      exact (Ends.lift (counted_log _ _)).bind <| (Ends.throw _ _).bind_error
    · rw [if_neg fun heq => hf (hmoved.mp heq.symm), if_neg hf, if_neg hf]
      exact (Ends.lift (counted_log _ _)).bind (.pure 0 _)
  · exact hwait.bind_error

/-- In each attempt the bit moves once unless it is frozen, whether the driver hears of it or not. -/
theorem counted_sendUrgent (timing : Timing) (hs : s.Sound) (hu : s.urgent = 0) (hopcode : opcode ≠ 0)
    (hpolls : 0 < timing.doorbellPolls) (n : ℕ) : ∃ r t,
      Ends ((counted timing).sendUrgent opcode) ⟨s, n⟩ r ⟨t, n + if s.acknowledgeFrozen then 0 else 1⟩ ∧
        Shouted s r t := by
  have hasked : EmulatedSdm.Sound { s with urgent := opcode } := hs.registers _ _ _ _
  obtain ⟨haccepted, hfrozen, -⟩ := accepted_spec { s with urgent := opcode }
  obtain ⟨hheard, hlost, -⟩ := accepted_doorbell { s with urgent := opcode }
  obtain ⟨w, t, hwait, helapses, hw, hraised⟩ := counted_waitDoorbell hasked.accepted
    (n + if s.acknowledgeFrozen then 0 else 1) timing timing.doorbellPolls
  -- the doorbell of this command is the first to be lost, if any is
  have hstays : HearsAs s t := by
    refine ⟨helapses.sound, (helapses.urgent.trans haccepted).trans hu.symm, helapses.frozen.trans hfrozen,
      fun d hd => ?_⟩
    cases d with
    | zero => exact helapses.lost 0 (hheard hd).2
    | succ d =>
      obtain ⟨d', hle, hd'⟩ := helapses.lost d (hlost d hd)
      exact ⟨d', Nat.le_succ_of_le hle, hd'⟩
  refine ⟨_, t, counted_sendUrgent_of_wait hs hopcode hwait helapses hw, hstays, fun hf => ?_, fun hf => ?_,
    fun hmissed d hd => ?_⟩
  · rcases hw with rfl | rfl
    · exact .inl (if_pos hf)
    · exact .inr rfl
  · rcases hw with rfl | rfl
    · exact .inl (if_neg (by rw [hf]; decide))
    · exact .inr rfl
  · rcases hw with rfl | rfl
    · simp only at hmissed
      split at hmissed <;> cases hmissed
    · cases d with
      | zero => cases hraised hpolls (hheard hd).1
      | succ d =>
        obtain ⟨d', hle, hd'⟩ := helapses.lost d (hlost d hd)
        exact ⟨d', Nat.lt_succ_of_le hle, hd'⟩

/-! ### One call -/

/-- What a call of at most so many attempts may come to, if it has made `k`. Each attempt but the last one has
missed a doorbell. -/
structure Called (attempts : ℕ) (s : EmulatedSdm) (r : Except MailboxError ℕ) (k : ℕ) (t : EmulatedSdm) :
    Prop where
  stays : HearsAs s t
  least : 1 ≤ k
  most : k ≤ attempts
  frozen : s.acknowledgeFrozen = true → r = .error .notAcknowledged ∨ r = .error .timeout
  moving : s.acknowledgeFrozen = false → r = .ok 0 ∨ r = .error .timeout ∧ k = attempts
  lost : ∀ d, s.lostDoorbells = some d → k ≤ d + 1 ∧ (r = .error .timeout → attempts ≤ d)

theorem Shouted.final {r : Except MailboxError ℕ} (h : Shouted s r t) (hr : r ≠ .error .timeout) (more : ℕ) :
    Called (more + 1) s r 1 t where
  stays := h.stays
  least := Nat.le_refl 1
  most := Nat.le_add_left 1 more
  frozen := h.frozen
  moving hf := .inl ((h.moving hf).resolve_right hr)
  lost d _ := ⟨Nat.le_add_left 1 d, fun htimeout => absurd htimeout hr⟩

theorem Shouted.last (h : Shouted s (.error .timeout) t) : Called 1 s (.error .timeout) 1 t.ticked where
  stays := h.stays.trans (elapses_ticked h.stays.sound).toHearsAs
  least := Nat.le_refl 1
  most := Nat.le_refl 1
  frozen _ := .inr rfl
  moving _ := .inr ⟨rfl, rfl⟩
  lost d hd := by
    obtain ⟨d', hlt, -⟩ := h.missed rfl d hd
    exact ⟨by omega, fun _ => by omega⟩

theorem Shouted.again {r : Except MailboxError ℕ} {attempts k : ℕ} {u : EmulatedSdm}
    (h : Shouted s (.error .timeout) t) (hrest : Called attempts t.ticked r k u) :
    Called (attempts + 1) s r (k + 1) u := by
  have helapses := elapses_ticked h.stays.sound
  have hfrozen : t.ticked.acknowledgeFrozen = s.acknowledgeFrozen := helapses.frozen.trans h.stays.frozen
  refine ⟨(h.stays.trans helapses.toHearsAs).trans hrest.stays, Nat.le_add_left 1 k,
    Nat.succ_le_succ hrest.most, fun hf => hrest.frozen (hfrozen.trans hf), fun hf => ?_, fun d hd => ?_⟩
  · refine (hrest.moving (hfrozen.trans hf)).imp_right fun ⟨hr, hk⟩ => ⟨hr, by rw [hk]⟩
  · obtain ⟨d', hlt, hd'⟩ := h.missed rfl d hd
    obtain ⟨d'', hle, hd''⟩ := helapses.lost d' hd'
    obtain ⟨hk, hattempts⟩ := hrest.lost d'' hd''
    exact ⟨by omega, fun hr => by have := hattempts hr; omega⟩

theorem Shouted.cases {r : Except MailboxError ℕ} (h : Shouted s r t) :
    r = .error .timeout ∨ r = .ok 0 ∨ r = .error .notAcknowledged := by
  cases hf : s.acknowledgeFrozen with
  | true => exact (h.frozen hf).symm.imp_right .inr
  | false => exact (h.moving hf).symm.imp_right .inl

/-- The driver tries again only if it has heard no doorbell. -/
theorem counted_final {r : Except MailboxError ℕ} {f g : Tally} (more number : ℕ) (buffer : Vector UInt32 room)
    (h : Ends ((counted timing).sendUrgent opcode) f r g) (hr : r = .ok 0 ∨ r = .error .notAcknowledged) :
    Returns (send.go (counted timing) opcode arguments true more number buffer) f (r, overlay buffer []) g := by
  have hattempt : Returns ((counted timing).attempt opcode arguments true room) f { result := r } g :=
    Returns.bind h (.pure _ g)
  unfold send.go
  refine hattempt.bind ?_
  rcases hr with rfl | rfl <;> exact .pure _ g

theorem counted_missed {f : Tally} {m : ℕ} (arguments : List UInt32) (number : ℕ) (buffer : Vector UInt32 room)
    (h : Ends ((counted timing).sendUrgent opcode) f (.error .timeout) ⟨t, m⟩) (ht : t.Sound) :
    Returns (send.go (counted timing) opcode arguments true 0 number buffer) f
      (.error .timeout, overlay buffer []) ⟨t.ticked, m⟩ ∧
    ∀ {more : ℕ} {result : Except MailboxError ℕ × Vector UInt32 room} {u : Tally},
      Returns (send.go (counted timing) opcode arguments true more (number + 1) (overlay buffer []))
        ⟨t.ticked, m⟩ result u →
      Returns (send.go (counted timing) opcode arguments true (more + 1) number buffer) f result u := by
  have hattempt : Returns ((counted timing).attempt opcode arguments true room) f
      { result := .error .timeout } ⟨t, m⟩ := Returns.bind h (.pure _ _)
  refine ⟨?_, fun hrest => ?_⟩ <;>
  · unfold send.go
    refine hattempt.bind <| (counted_log _ _).bind <| (counted_delay ht m timing _).bind ?_
    first | exact .pure _ _ | exact hrest

/-- The bit moves once in each attempt of a call, unless it is frozen. -/
theorem counted_send (hopcode : opcode ≠ 0) (hpolls : 0 < timing.doorbellPolls) (arguments : List UInt32)
    (more number : ℕ) (buffer : Vector UInt32 room) (hs : s.Sound) (hu : s.urgent = 0) (n : ℕ) :
    ∃ r buffer' k t, Returns (send.go (counted timing) opcode arguments true more number buffer) ⟨s, n⟩
        (r, buffer') ⟨t, n + if s.acknowledgeFrozen then 0 else k⟩ ∧ Called (more + 1) s r k t := by
  induction more generalizing number buffer s n with
  | zero =>
    obtain ⟨r, t, hshout, h⟩ := counted_sendUrgent timing hs hu hopcode hpolls n
    obtain rfl | hr := h.cases
    · exact ⟨_, _, 1, _, (counted_missed arguments number buffer hshout h.stays.sound).1, h.last⟩
    · exact ⟨r, _, 1, t, counted_final 0 number buffer hshout hr, h.final (by rcases hr with rfl | rfl <;> nofun) 0⟩
  | succ more ih =>
    obtain ⟨r, t, hshout, h⟩ := counted_sendUrgent timing hs hu hopcode hpolls n
    obtain rfl | hr := h.cases
    · have helapses := elapses_ticked h.stays.sound
      have hu' : t.ticked.urgent = 0 := (helapses.urgent.trans h.stays.urgent).trans hu
      obtain ⟨r, buffer', k, u, hrest, hcalled⟩ := ih (number + 1) (overlay buffer []) helapses.sound hu'
        (n + if s.acknowledgeFrozen then 0 else 1)
      refine ⟨r, buffer', k + 1, u, (counted_missed arguments number buffer hshout h.stays.sound).2 ?_, h.again hcalled⟩
      have hmoves : n + (if s.acknowledgeFrozen then 0 else k + 1) =
          n + (if s.acknowledgeFrozen then 0 else 1) + if t.ticked.acknowledgeFrozen then 0 else k := by
        rw [helapses.frozen, h.stays.frozen]
        split <;> omega
      rw [hmoves]
      exact hrest
    · exact ⟨r, _, 1, t, counted_final _ number buffer hshout hr,
        h.final (by rcases hr with rfl | rfl <;> nofun) _⟩

/-! ### Calls that are not heard -/

theorem counted_waitDoorbell_still (timing : Timing) (h : s.Still) (budget n : ℕ) :
    Ends ((counted timing).waitDoorbell budget) ⟨s, n⟩ (.error .timeout) ⟨s, n⟩ := by
  induction budget with
  | zero => exact (Ends.lift (counted_log _ _)).bind (.throw _ _)
  | succ budget ih =>
    have htake := counted_takeDoorbell h.sound n timing
    rw [if_neg h.quiet, decide_eq_false h.quiet] at htake
    unfold waitDoorbell
    refine (Ends.lift htake).bind <| (Ends.lift (counted_delay h.sound n timing _)).bind ?_
    rw [h.ticked]
    exact ih

/-- If the doorbell gets lost, the bit has moved and the driver does not know. -/
theorem counted_send_still (h : s.Still) (hlost : s.lostDoorbells ≠ some 0) (hf : s.acknowledgeFrozen = false)
    (hopcode : opcode ≠ 0) (arguments : List UInt32) (number : ℕ) (buffer : Vector UInt32 room) (n : ℕ) :
    Returns (send.go (counted timing) opcode arguments true 0 number buffer) ⟨s, n⟩
      (.error .timeout, overlay buffer []) ⟨accepted { s with urgent := opcode }, n + 1⟩ ∧
    ∀ {more : ℕ} {result : Except MailboxError ℕ × Vector UInt32 room} {u : Tally},
      Returns (send.go (counted timing) opcode arguments true more (number + 1) (overlay buffer []))
        ⟨accepted { s with urgent := opcode }, n + 1⟩ result u →
      Returns (send.go (counted timing) opcode arguments true (more + 1) number buffer) ⟨s, n⟩ result u := by
  have haccepted := h.accepted hlost opcode
  have hwait := counted_waitDoorbell_still timing haccepted timing.doorbellPolls
    (n + if s.acknowledgeFrozen then 0 else 1)
  have hmissed := counted_missed arguments number buffer
    (counted_sendUrgent_of_wait h.sound hopcode hwait (.refl haccepted.sound) (.inr rfl)) haccepted.sound
  have hmoves : (n + if s.acknowledgeFrozen then 0 else 1) = n + 1 := by rw [hf]; rfl
  rw [haccepted.ticked, hmoves] at hmissed
  exact hmissed

/-- If every doorbell gets lost, the driver gives up after the last attempt, and the bit has moved in each of them. -/
theorem counted_send_unheard (timing : Timing) (h : s.Unheard) (hopcode : opcode ≠ 0) (arguments : List UInt32)
    (more number : ℕ) (buffer : Vector UInt32 room) (n : ℕ) : ∃ buffer' t,
      Returns (send.go (counted timing) opcode arguments true more number buffer) ⟨s, n⟩
        (.error .timeout, buffer') ⟨t, n + (more + 1)⟩ ∧ t.Unheard := by
  have hlost {u : EmulatedSdm} (hu : u.Unheard) : u.lostDoorbells ≠ some 0 := by rw [hu.lost]; nofun
  induction more generalizing number buffer s n with
  | zero =>
    exact ⟨_, _, (counted_send_still h.toStill (hlost h) h.moving hopcode arguments number buffer n).1,
      h.accepted opcode⟩
  | succ more ih =>
    obtain ⟨buffer', t, hrest, ht⟩ := ih (h.accepted opcode) (number + 1) (overlay buffer []) (n + 1)
    rw [Nat.add_assoc, Nat.add_comm 1] at hrest
    exact ⟨buffer', t,
      (counted_send_still h.toStill (hlost h) h.moving hopcode arguments number buffer n).2 hrest, ht⟩

/-! ### Runs of calls -/

/-- What becomes of the device manager before a call, and the urgent command that is sent then. -/
structure UrgentCall where
  change : EmulatedSdm → EmulatedSdm
  opcode : UInt32
  arguments : List UInt32 := []
  room : ℕ := 0

/-- What a call comes to: the device manager that it found, its result, and how often the bit has moved in it. -/
structure UrgentReport where
  found : EmulatedSdm
  result : Except MailboxError ℕ
  moves : ℕ

namespace UrgentCall

def perform (timing : Timing) (c : UrgentCall) : RegisterM Tally UrgentReport := do
  modify fun f => { sdm := c.change f.sdm, moves := 0 }
  let found := (← get).sdm
  let (result, _) ← (counted timing).send c.opcode c.arguments true (Vector.replicate c.room 0)
  return { found, result, moves := (← get).moves }

theorem returns_perform {c : UrgentCall} {f g : Tally} {result : Except MailboxError ℕ}
    {buffer : Vector UInt32 c.room} (h : Returns (send.go (counted timing) c.opcode c.arguments true
      (timing.retries - 1) 1 (Vector.replicate c.room 0)) ⟨c.change f.sdm, 0⟩ (result, buffer) g) :
    Returns (c.perform timing) f ⟨c.change f.sdm, result, g.moves⟩ g :=
  (Returns.modify _ _).bind <| (Returns.get _).bind <| Returns.bind h <| (Returns.get _).bind (.pure _ _)

def performAll (timing : Timing) : List UrgentCall → RegisterM Tally (List UrgentReport)
  | [] => return []
  | c :: calls => do
    let report ← c.perform timing
    return report :: (← performAll timing calls)

theorem returns_performAll {c : UrgentCall} {calls : List UrgentCall} {report : UrgentReport}
    {reports : List UrgentReport} {f g u : Tally} (h : Returns (c.perform timing) f report g)
    (hrest : Returns (performAll timing calls) g reports u) :
    Returns (performAll timing (c :: calls)) f (report :: reports) u :=
  h.bind <| hrest.bind (.pure _ u)

/-- The command is one, and before it anything may change but that no urgent command is pending and that the
cursors are in their rings. -/
structure Fair (c : UrgentCall) : Prop where
  opcode : c.opcode ≠ 0
  change : ∀ s, s.Sound → s.urgent = 0 → (c.change s).Sound ∧ (c.change s).urgent = 0

end UrgentCall

/-- The movements of the bit in a call are accounted for. -/
structure UrgentReport.Accounted (attempts : ℕ) (r : UrgentReport) : Prop where
  /-- A bit that is frozen does not move, and the call fails. -/
  frozen : r.found.acknowledgeFrozen = true →
    r.moves = 0 ∧ (r.result = .error .notAcknowledged ∨ r.result = .error .timeout)
  /-- Otherwise it moves once for each attempt, and the call fails only if none has heard a doorbell. -/
  moving : r.found.acknowledgeFrozen = false → 1 ≤ r.moves ∧ r.moves ≤ attempts ∧
    (r.result = .ok 0 ∨ r.result = .error .timeout ∧ r.moves = attempts)
  /-- Whatever is more than one movement is owed to doorbells that get lost. -/
  lost : ∀ d, r.found.lostDoorbells = some d →
    r.moves ≤ d + 1 ∧ (r.result = .error .timeout → attempts ≤ d)
  /-- If none gets lost, it moves once if the call succeeds and not at all if it fails. -/
  heard : r.found.lostDoorbells = some 0 →
    (∀ count, r.result = .ok count → r.moves = 1) ∧ ∀ e, r.result = .error e → r.moves = 0

theorem Called.accounted {attempts k : ℕ} {r : Except MailboxError ℕ} (h : Called attempts s r k t) :
    UrgentReport.Accounted attempts ⟨s, r, if s.acknowledgeFrozen then 0 else k⟩ := by
  have hleast := h.least
  have hmost := h.most
  cases hf : s.acknowledgeFrozen with
  | true =>
    have hfails := h.frozen hf
    refine ⟨fun _ => ⟨rfl, hfails⟩, fun hm => ?_, fun d hd => ⟨Nat.zero_le _, (h.lost d hd).2⟩, fun _ => ⟨?_, ?_⟩⟩
    · cases hf.symm.trans hm
    · rintro count rfl
      obtain hr | hr := hfails <;> cases hr
    · exact fun e _ => rfl
  | false =>
    have hends := h.moving hf
    refine ⟨fun hm => ?_, fun _ => ⟨hleast, hmost, hends⟩, fun d => h.lost d, fun hlost => ⟨?_, ?_⟩⟩
    · cases hf.symm.trans hm
    · intro count _
      exact Nat.le_antisymm (h.lost 0 hlost).1 hleast
    · -- the only failure there may be has missed a doorbell
      rintro e rfl
      obtain hr | ⟨hr, -⟩ := hends
      · cases hr
      · have := (h.lost 0 hlost).2 hr
        omega

/-- **Every movement of the acknowledge bit is accounted for**, in any run of urgent commands, whatever becomes of
the device manager in between. -/
theorem urgent_accounted {calls : List UrgentCall} (hcalls : ∀ c ∈ calls, c.Fair)
    (hpolls : 0 < timing.doorbellPolls) (hs : s.Sound) (hu : s.urgent = 0) (n : ℕ) :
    ∃ reports f, Returns (UrgentCall.performAll timing calls) ⟨s, n⟩ reports f ∧
      reports.length = calls.length ∧ ∀ r ∈ reports, r.Accounted (timing.retries - 1 + 1) := by
  induction calls generalizing s n with
  | nil => exact ⟨[], ⟨s, n⟩, .pure _ _, rfl, List.forall_mem_nil _⟩
  | cons c calls ih =>
    obtain ⟨hc, hrest⟩ := List.forall_mem_cons.mp hcalls
    obtain ⟨hs', hu'⟩ := hc.change s hs hu
    obtain ⟨r, buffer, k, t, hsend, hcalled⟩ := counted_send hc.opcode hpolls c.arguments (timing.retries - 1) 1
      (Vector.replicate c.room 0) hs' hu' 0
    rw [Nat.zero_add] at hsend
    obtain ⟨reports, f, hperforms, hlength, hall⟩ := ih hrest hcalled.stays.sound (hcalled.stays.urgent.trans hu') _
    refine ⟨_, f, UrgentCall.returns_performAll (UrgentCall.returns_perform hsend) hperforms,
      congrArg (· + 1) hlength, ?_⟩
    exact List.forall_mem_cons.mpr ⟨hcalled.accounted, hall⟩

/-- Two restarts: no doorbell is heard during the first, and one gets lost before the second. -/
def muffled : List UrgentCall :=
  [⟨dropDoorbells 0xffffffff, Command.restart.opcode, [], 0⟩,
    ⟨dropDoorbells 1, Command.restart.opcode, [], 0⟩]

theorem fair_muffled : ∀ c ∈ muffled, c.Fair := by
  have hdrop (count : UInt32) : UrgentCall.Fair ⟨dropDoorbells count, Command.restart.opcode, [], 0⟩ :=
    ⟨show Command.restart.opcode ≠ 0 by decide, fun s hs hu => ⟨Fault.keeps_inject (.lostDoorbells count) hs, hu⟩⟩
  exact List.forall_mem_cons.mpr ⟨hdrop _, List.forall_mem_singleton.mpr (hdrop _)⟩

theorem urgent_accounted_muffled : ∃ reports f,
    Returns (UrgentCall.performAll {} muffled) ⟨fresh {}, 0⟩ reports f ∧ reports.length = 2 ∧
      ∀ r ∈ reports, r.Accounted 3 :=
  urgent_accounted fair_muffled (by decide) sound_fresh rfl 0

/-- The bit moves three times in a call that fails, and twice in one that succeeds. -/
theorem muffled_moves : ∃ reports f, Returns (UrgentCall.performAll {} muffled) ⟨fresh {}, 0⟩ reports f ∧
    reports.map (fun r => (r.result, r.moves)) = [(.error .timeout, 3), (.ok 0, 2)] := by
  have hopcode : Command.restart.opcode ≠ 0 := by decide
  have hfresh : (dropDoorbells 0xffffffff (fresh {})).Unheard :=
    ⟨⟨Fault.keeps_inject (.lostDoorbells _) sound_fresh, by decide, rfl, .inl rfl⟩, rfl, rfl⟩
  obtain ⟨buffer, t, hfirst, ht⟩ := counted_send_unheard {} hfresh hopcode [] 2 1 (Vector.replicate 0 0) 0
  have hone : (dropDoorbells 1 t).Still :=
    ⟨Fault.keeps_inject (.lostDoorbells 1) ht.sound, ht.quiet, ht.idle, ht.published⟩
  have hmoving : (dropDoorbells 1 t).acknowledgeFrozen = false := ht.moving
  have hloses : (dropDoorbells 1 t).lostDoorbells ≠ some 0 := show some 1 ≠ some 0 by decide
  obtain ⟨hurgent, hfrozen, -⟩ := accepted_spec { dropDoorbells 1 t with urgent := Command.restart.opcode }
  have hlost := (accepted_doorbell { dropDoorbells 1 t with urgent := Command.restart.opcode }).2.1 0 rfl
  -- no doorbell is left to get lost for the second attempt
  obtain ⟨r, u, hshout, h⟩ := counted_sendUrgent {}
    (hone.accepted hloses Command.restart.opcode).sound hurgent hopcode (by decide) 1
  have hr : r = .ok 0 := by
    refine (h.moving (hfrozen.trans hmoving)).resolve_right fun hmissed => ?_
    obtain ⟨_, hlt, -⟩ := h.missed hmissed 0 hlost
    omega
  subst hr
  have hmoves : (1 + if (accepted { dropDoorbells 1 t with urgent := Command.restart.opcode }).acknowledgeFrozen
      then 0 else 1) = 2 := by rw [hfrozen.trans hmoving]; rfl
  rw [hmoves] at hshout
  have hsecond := (counted_send_still hone hloses hmoving hopcode [] 1 (Vector.replicate 0 0) 0).2
    (counted_final 1 2 _ hshout (.inl rfl))
  have hend : Returns (UrgentCall.performAll {} []) ⟨u, 2⟩ [] ⟨u, 2⟩ := .pure _ _
  exact ⟨_, _, UrgentCall.returns_performAll (UrgentCall.returns_perform hfirst) <|
    UrgentCall.returns_performAll (UrgentCall.returns_perform hsecond) hend, rfl⟩

end Mailbox

end RemoteUpdate
