import RemoteUpdate.Mailbox.Exchange
import RemoteUpdate.Proofs.Sdm.Queues

/-!
# What the host sees and does

Every access of the host to the registers as a function of the state. Whatever time passes and however
often the doorbell is rung, the device manager only `Advances`: it may have consumed the commands in the
ring, or not yet, but it will have the same responses once it has caught up.
-/

namespace RemoteUpdate.EmulatedSdm

variable {s t u : EmulatedSdm}

def Raised (s : EmulatedSdm) : Prop :=
  s.doorbell &&& 1 ≠ 0

instance (s : EmulatedSdm) : Decidable s.Raised := by unfold Raised; infer_instance

theorem not_raised_cleared (s : EmulatedSdm) : ¬ Raised { s with doorbell := 0 } :=
  not_not.mpr (show (0 : UInt32) &&& 1 = 0 by decide)

/-- No doorbell gets lost, and the host is not waiting for one with the response ring full. -/
def Alert (s : EmulatedSdm) : Prop :=
  s.lostDoorbells = some 0 ∧ (s.Raised ∨ 0 < s.room)

/-- No doorbell is raised, and none can be, for the response ring is full. -/
def Muted (s : EmulatedSdm) : Prop :=
  ¬ s.Raised ∧ s.room = 0

/-- If consumption is under way, it is due within the delay. -/
def Timely (s : EmulatedSdm) : Prop :=
  ∀ c, s.countdown = some c → 1 ≤ c ∧ c ≤ s.consumeDelay

/-- The clock of `t` has been started with the delay of `s`, or has gone on from where it was in `s`
without running out. -/
def Counting (s t : EmulatedSdm) : Prop :=
  ∀ c, t.countdown = some c → 1 ≤ c ∧ c ≤ s.consumeDelay ∨
    ∃ c', s.countdown = some c' ∧ c ≤ c' ∧ (1 ≤ c' → 1 ≤ c)

theorem Counting.of_eq (h : t.countdown = s.countdown) : Counting s t :=
  fun c hc => .inr ⟨c, h ▸ hc, le_rfl, id⟩

theorem Counting.trans (h : Counting s t) (hdelay : t.consumeDelay = s.consumeDelay)
    (h' : Counting t u) : Counting s u := by
  intro c hc
  rcases h' c hc with ⟨hpos, hle⟩ | ⟨c', hc', hle, hpos⟩
  · exact .inl ⟨hpos, hdelay ▸ hle⟩
  · rcases h c' hc' with ⟨hpos', hle'⟩ | ⟨c₀, hc₀, hle', hpos'⟩
    · exact .inl ⟨hpos hpos', hle.trans hle'⟩
    · exact .inr ⟨c₀, hc₀, hle.trans hle', hpos ∘ hpos'⟩

theorem Counting.ne_zero (h : Counting s t) (hs : s.countdown ≠ some 0) : t.countdown ≠ some 0 := by
  intro hzero
  rcases h 0 hzero with ⟨hpos, -⟩ | ⟨c', hc', -, hpos⟩
  · omega
  · match c', hc', hpos with
    | 0, hc', _ => exact hs hc'
    | c + 1, _, hpos => exact absurd (hpos (by omega)) (by omega)

theorem Timely.ne_zero (h : s.Timely) : s.countdown ≠ some 0 := by
  intro hzero
  have := h 0 hzero
  omega

theorem Counting.timely (h : Counting s t) (hdelay : t.consumeDelay = s.consumeDelay) (ht : s.Timely) :
    t.Timely := by
  intro c hc
  rw [hdelay]
  rcases h c hc with hstarted | ⟨c', hc', hle, hpos⟩
  · exact hstarted
  · obtain ⟨hpos', hle'⟩ := ht c' hc'
    exact ⟨hpos hpos', hle.trans hle'⟩

/-- From `s` to `t` the device manager was left to itself or asked to hurry. -/
structure Advances (s t : EmulatedSdm) : Prop where
  sound : t.Sound
  cin : t.cin = s.cin
  rout : t.rout = s.rout
  urgent : t.urgent = s.urgent
  consumeDelay : t.consumeDelay = s.consumeDelay
  caughtUp : t.caughtUp = s.caughtUp
  seen : t.commandWords = s.commandWords ∧ t.queue = s.queue ∧ t.past = s.past ∨ t.commandWords = []
  clock : Counting s t
  alert : s.Alert → t.Alert
  muted : s.Muted → t.Muted

namespace Advances

theorem refl (hs : s.Sound) : Advances s s :=
  ⟨hs, rfl, rfl, rfl, rfl, rfl, .inl ⟨rfl, rfl, rfl⟩, .of_eq rfl, id, id⟩

theorem trans (h : Advances s t) (h' : Advances t u) : Advances s u where
  sound := h'.sound
  cin := h'.cin.trans h.cin
  rout := h'.rout.trans h.rout
  urgent := h'.urgent.trans h.urgent
  consumeDelay := h'.consumeDelay.trans h.consumeDelay
  caughtUp := h'.caughtUp.trans h.caughtUp
  seen := by
    rcases h'.seen with ⟨hwords, hqueue, hpast⟩ | hempty
    · rcases h.seen with ⟨gwords, gqueue, gpast⟩ | gempty
      · exact .inl ⟨hwords.trans gwords, hqueue.trans gqueue, hpast.trans gpast⟩
      · exact .inr (hwords.trans gempty)
    · exact .inr hempty
  clock := h.clock.trans h.consumeDelay h'.clock
  alert := h'.alert ∘ h.alert
  muted := h'.muted ∘ h.muted

theorem timely (h : Advances s t) : s.Timely → t.Timely :=
  h.clock.timely h.consumeDelay

end Advances

theorem alert_published (hs : s.Sound) (h : s.Alert) : s.published.Alert := by
  by_cases hp : s.Published
  · rw [published_of_published hp]
    exact h
  · obtain ⟨hdoorbell, hlost⟩ := doorbell_published hs hp h.1
    refine ⟨hlost, .inl ?_⟩
    rw [Raised, hdoorbell]
    decide

theorem advances_published (hs : s.Sound) : Advances s s.published := by
  obtain ⟨hsound, -, hcore, hqueue, hrout⟩ := published_spec hs
  exact {
    sound := hsound
    cin := congr_core EmulatedSdm.cin hcore
    rout := hrout
    urgent := congr_core EmulatedSdm.urgent hcore
    consumeDelay := congr_core EmulatedSdm.consumeDelay hcore
    caughtUp := caughtUp_congr hcore hqueue
    seen := .inl ⟨commandWords_congr hcore, hqueue, congr_core past hcore⟩
    clock := .of_eq (congr_core EmulatedSdm.countdown hcore)
    alert := alert_published hs
    muted := fun h => by rwa [published_of_published (.inr h.2)] }

theorem advances_countdown (hs : s.Sound) {countdown : Option Nat}
    (h : Counting s { s with countdown }) : Advances s { s with countdown } :=
  ⟨⟨hs.map, hs.cin, hs.cout, hs.rin, hs.rout, hs.commandCells, hs.responseCells⟩, rfl, rfl, rfl, rfl,
    rfl, .inl ⟨rfl, rfl, rfl⟩, h, id, id⟩

theorem advances_stopped (hs : s.Sound) : Advances s { s with countdown := none } :=
  advances_countdown hs fun _ h => nomatch h

theorem advances_emptied (hs : s.Sound) : Advances s s.emptied where
  sound := hs.emptied
  cin := by rw [emptied_eq]; rfl
  rout := by rw [emptied_eq]; rfl
  urgent := by rw [emptied_eq]; rfl
  consumeDelay := by rw [emptied_eq]; rfl
  caughtUp := caughtUp_emptied hs
  seen := .inr (commandWords_emptied hs)
  clock := .of_eq (by rw [emptied_eq]; rfl)
  alert := by rw [emptied_eq]; exact id
  muted := by rw [emptied_eq]; exact id

theorem advances_consumed (hs : s.Sound) : Advances s s.consumed :=
  (advances_emptied hs).trans (advances_published hs.emptied)

theorem commandWords_consumed (hs : s.Sound) : s.consumed.commandWords = [] :=
  (commandWords_congr (published_spec hs.emptied).2.2.1).trans (commandWords_emptied hs)

theorem countdown_consumed (hs : s.Sound) : s.consumed.countdown = s.countdown := by
  have hemptied : s.emptied.countdown = s.countdown := by rw [emptied_eq]; rfl
  exact (congr_core EmulatedSdm.countdown (published_spec hs.emptied).2.2.1).trans hemptied

theorem published_consumed (hs : s.Sound) : s.consumed.Published :=
  (published_spec hs.emptied).2.1

/-- Whoever consumes a command that draws a response raises the doorbell. -/
theorem raised_consumed (hs : s.Sound) (ha : s.Alert) (h : s.caughtUp.outbox ≠ s.queue) :
    s.consumed.Raised := by
  have halert := (advances_consumed hs).alert ha
  have hempty := commandWords_emptied hs
  by_cases hp : s.emptied.Published
  · rcases halert.2 with hraised | hroom
    · exact hraised
    · have hsame : s.consumed = s.emptied := published_of_published hp
      have houtbox : s.emptied.outbox = [] := by
        rcases hp with houtbox | hfull
        · exact houtbox
        · rw [hsame, hfull] at hroom
          exact absurd hroom (Nat.lt_irrefl 0)
      obtain ⟨rs, hrs⟩ := outbox_caughtUp s
      have hring : s.emptied.responseWords = s.responseWords := by rw [emptied_eq]; rfl
      have hqueue : s.caughtUp.outbox = s.responseWords := by
        rw [← caughtUp_emptied hs, outbox_caughtUp_of_empty hempty, queue, hring, houtbox,
          List.append_nil]
      -- nothing new came out, and nothing was waiting before
      have hnone : s.outbox ++ Response.wire rs = [] := by
        rw [hqueue, queue, List.append_assoc] at hrs
        simpa using hrs
      have houtbox' : s.outbox = [] := (List.append_eq_nil_iff.mp hnone).1
      exact absurd (by rw [hqueue, queue, houtbox', List.append_nil]) h
  · have hdoorbell := (doorbell_published hs.emptied hp ((advances_emptied hs).alert ha).1).1
    rw [Raised, show s.consumed.doorbell = 1 from hdoorbell]
    decide

/-! ### Time -/

def ticked (s : EmulatedSdm) : EmulatedSdm :=
  match s.countdown with
  | some 0 | some 1 => consumed { s with countdown := none }
  | some (n + 2) => published { s with countdown := some (n + 1) }
  | none => s.published

theorem returns_tick (hs : s.Sound) : Returns tick s () s.ticked := by
  have again : ∀ {u : EmulatedSdm}, u.Sound → Returns publish u.consumed () u.consumed := by
    intro u hu
    have h := returns_publish (advances_consumed hu).sound
    rw [published_of_published (published_consumed hu)] at h
    exact h
  have stopped := (advances_stopped hs).sound
  unfold tick ticked
  refine (Returns.get s).bind ?_
  simp only
  cases s.countdown with
  | none => exact (Returns.pure _ s).bind (returns_publish hs)
  | some n =>
    rcases n with _ | _ | n
    · exact (Returns.set _ _).bind <| (returns_consume stopped).bind (again stopped)
    · exact (Returns.set _ _).bind <| (returns_consume stopped).bind (again stopped)
    · exact (Returns.set _ _).bind (returns_publish
        ⟨hs.map, hs.cin, hs.cout, hs.rin, hs.rout, hs.commandCells, hs.responseCells⟩)

theorem advances_counted (hs : s.Sound) {n : Nat} (h : s.countdown = some (n + 2)) :
    Advances s { s with countdown := some (n + 1) } := by
  refine advances_countdown hs fun c hc => ?_
  obtain rfl := Option.some.inj hc
  exact .inr ⟨n + 2, h, by omega, by omega⟩

theorem advances_ticked (hs : s.Sound) : Advances s s.ticked := by
  have stopped := advances_stopped hs
  unfold ticked
  split
  · exact stopped.trans (advances_consumed stopped.sound)
  · exact stopped.trans (advances_consumed stopped.sound)
  next h => exact (advances_counted hs h).trans (advances_published (advances_counted hs h).sound)
  · exact advances_published hs

theorem published_ticked (hs : s.Sound) : s.ticked.Published := by
  have stopped := advances_stopped hs
  unfold ticked
  split
  · exact published_consumed stopped.sound
  · exact published_consumed stopped.sound
  next h => exact (published_spec (advances_counted hs h).sound).2.1
  · exact (published_spec hs).2.1

theorem ticked_idle (h : s.countdown = none) (hp : s.Published) : s.ticked = s := by
  unfold ticked
  rw [h]
  exact published_of_published hp

/-- When the time has come, the command ring is emptied. -/
theorem ticked_due (hs : s.Sound) (h : s.countdown = some 1) :
    s.ticked.commandWords = [] ∧ s.ticked.countdown = none ∧
      (s.Alert → s.caughtUp.outbox ≠ s.queue → s.ticked.Raised) := by
  have stopped := (advances_stopped hs).sound
  have hticked : s.ticked = consumed { s with countdown := none } := by
    unfold ticked
    rw [h]
  rw [hticked]
  exact ⟨commandWords_consumed stopped, countdown_consumed stopped, raised_consumed stopped⟩

theorem ticked_early (hs : s.Sound) {n : Nat} (h : s.countdown = some (n + 2)) :
    s.ticked.commandWords = s.commandWords ∧ s.ticked.countdown = some (n + 1) ∧
      s.ticked.queue = s.queue := by
  have hticked : s.ticked = published { s with countdown := some (n + 1) } := by
    unfold ticked
    rw [h]
  obtain ⟨-, -, hcore, hqueue, -⟩ := published_spec (advances_counted hs h).sound
  have hwords := commandWords_congr hcore
  have hcountdown := congr_core EmulatedSdm.countdown hcore
  rw [hticked]
  exact ⟨hwords, hcountdown, hqueue⟩

theorem ticked_silent {n : Nat} (h : s.countdown = some (n + 2)) (hp : s.Published) :
    s.ticked = { s with countdown := some (n + 1) } := by
  unfold ticked
  rw [h]
  exact published_of_published hp

/-! ### The doorbell of the host -/

/-- The device manager after it has been told that there are commands. -/
def hurried (s : EmulatedSdm) : EmulatedSdm :=
  if s.consumeDelay = 0 then s.consumed
  else if s.countdown.isNone then { s with countdown := some s.consumeDelay }
  else s

/-- The device manager after the host has rung with no urgent command in its register. -/
def rung (s : EmulatedSdm) : EmulatedSdm :=
  if s.commandRing.free s.cin s.cout = 0 then
    hurried { s with overflowDoorbells := s.overflowDoorbells + 1 }
  else s.hurried

theorem advances_overflow (hs : s.Sound) (overflowDoorbells : Nat) :
    Advances s { s with overflowDoorbells } :=
  ⟨⟨hs.map, hs.cin, hs.cout, hs.rin, hs.rout, hs.commandCells, hs.responseCells⟩, rfl, rfl, rfl, rfl,
    rfl, .inl ⟨rfl, rfl, rfl⟩, .of_eq rfl, id, id⟩

theorem advances_hurried (hs : s.Sound) : Advances s s.hurried := by
  unfold hurried
  split
  next => exact advances_consumed hs
  next hdelay =>
    split
    · refine advances_countdown hs fun c hc => ?_
      obtain rfl := Option.some.inj hc
      exact .inl (by omega)
    · exact .refl hs

theorem advances_rung (hs : s.Sound) : Advances s s.rung := by
  unfold rung
  split
  · exact (advances_overflow hs _).trans (advances_hurried (advances_overflow hs _).sound)
  · exact advances_hurried hs

/-- A device manager without delay empties the command ring at once. -/
theorem rung_at_once (hs : s.Sound) (h : s.consumeDelay = 0) :
    s.rung.commandWords = [] ∧ s.rung.countdown = s.countdown ∧ s.rung.Published ∧
      (s.Alert → s.caughtUp.outbox ≠ s.queue → s.rung.Raised) := by
  have emptied : ∀ u : EmulatedSdm, u.Sound → u.consumeDelay = 0 → u.hurried.commandWords = [] ∧
      u.hurried.countdown = u.countdown ∧ u.hurried.Published ∧
      (u.Alert → u.caughtUp.outbox ≠ u.queue → u.hurried.Raised) := by
    intro u hu hdelay
    rw [show u.hurried = u.consumed from if_pos hdelay]
    exact ⟨commandWords_consumed hu, countdown_consumed hu, published_consumed hu, raised_consumed hu⟩
  unfold rung
  split
  · exact emptied _ (advances_overflow hs _).sound h
  · exact emptied s hs h

theorem rung_delayed (h : s.consumeDelay ≠ 0) :
    s.rung.commandWords = s.commandWords ∧ s.rung.queue = s.queue ∧
      s.rung.countdown = some (s.countdown.getD s.consumeDelay) := by
  unfold rung hurried
  simp only [h, if_false]
  cases hc : s.countdown <;> split <;> exact ⟨rfl, rfl, by simp [hc]⟩

theorem returns_onDoorbell (hs : s.Sound) (hu : s.urgent = 0) : Returns onDoorbell s () s.rung := by
  have hurry : ∀ u : EmulatedSdm, u.Sound → u.consumeDelay = s.consumeDelay →
      u.countdown = s.countdown → Returns (do
        if s.consumeDelay = 0 then consume
        else if s.countdown.isNone then
          modify fun u => { u with countdown := some u.consumeDelay }) u () u.hurried := by
    intro u hu hdelay hcountdown
    unfold hurried
    rw [← hdelay, ← hcountdown]
    split
    · exact returns_consume hu
    · split
      · exact .modify _ u
      · exact .pure () u
  unfold onDoorbell rung
  refine (Returns.get s).bind ?_
  rw [if_neg (not_not.mpr hu), hs.whenSlotted_command]
  refine (Returns.orAbort _ s).bind ?_
  by_cases hfree : s.commandRing.free s.cin s.cout = 0
  · simp only [hfree, if_true]
    exact (Returns.modify _ s).bind (hurry _ (advances_overflow hs _).sound rfl rfl)
  · simp only [hfree, if_false]
    exact hurry s hs rfl rfl

/-! ### Words in and out -/

def pushed (s : EmulatedSdm) (word : UInt32) : EmulatedSdm :=
  { s with
    commandCells := s.commandCells.setIfInBounds s.cin word
    cin := s.commandRing.next s.cin }

def popped (s : EmulatedSdm) : EmulatedSdm :=
  published { s with rout := s.responseRing.next s.rout }

namespace Ringed

variable (hs : s.Ringed)
include hs

theorem turned : Ringed { s with rout := s.responseRing.next s.rout } :=
  ⟨hs.rin, Ring.next_lt (by have := hs.rout; omega) _, hs.responseCells⟩

theorem popped : s.popped.Ringed ∧ s.popped.Published ∧ s.popped.core = s.core ∧
    s.popped.rout = s.responseRing.next s.rout := by
  obtain ⟨hringed, hpublished, hcore, -, hrout⟩ := hs.turned.published
  exact ⟨hringed, hpublished, hcore, hrout⟩

theorem queue_popped (h : s.rin ≠ s.rout) :
    s.queue = s.responseCells.getD s.rout 0 :: s.popped.queue := by
  obtain ⟨-, -, -, hqueue, -⟩ := hs.turned.published
  have hpop : s.responseWords = s.responseCells.getD s.rout 0 ::
      EmulatedSdm.responseWords { s with rout := s.responseRing.next s.rout } :=
    Ring.contents_pop hs.rin hs.rout h
  rw [EmulatedSdm.popped, hqueue, queue, hpop]
  rfl

theorem responseWords_eq_nil : s.responseWords = [] ↔ s.rin = s.rout :=
  Ring.contents_eq_nil hs.rin hs.rout

/-- A ring with room for a word, of which everything has been taken, holds nothing back. -/
theorem pending (hroom : 2 ≤ s.responseRing.capacity) (hp : s.Published) (h : s.queue ≠ []) :
    s.rin ≠ s.rout := by
  intro heq
  have hempty : s.responseWords = [] := hs.responseWords_eq_nil.mpr heq
  rcases hp with houtbox | hfull
  · exact h (by rw [queue, hempty, houtbox, List.nil_append])
  · have hzero := (Ring.pending_eq_zero hs.rin hs.rout).mpr heq
    unfold room Ring.free Ring.usable at hfull
    omega

end Ringed

section Words

variable (hs : s.Sound)
include hs

theorem Sound.pushed (word : UInt32) : (s.pushed word).Sound where
  map := hs.map
  cin := Ring.next_lt (by have := hs.cin; omega) _
  cout := hs.cout
  rin := hs.rin
  rout := hs.rout
  commandCells := by
    show (s.commandCells.setIfInBounds s.cin word).size = s.commandRing.capacity
    rw [Array.size_setIfInBounds]
    exact hs.commandCells
  responseCells := hs.responseCells

theorem commandWords_pushed (h : 0 < s.commandRing.free s.cin s.cout) (word : UInt32) :
    (s.pushed word).commandWords = s.commandWords ++ [word] :=
  Ring.contents_push hs.cin hs.cout hs.commandCells h word

theorem caughtUp_pushed (h : 0 < s.commandRing.free s.cin s.cout) (word : UInt32) :
    (s.pushed word).caughtUp = s.caughtUp.absorb word := by
  rw [caughtUp, commandWords_pushed hs h, List.foldl_append]
  rfl

theorem Sound.turned : Sound { s with rout := s.responseRing.next s.rout } :=
  hs.of_core rfl hs.ringed.turned

theorem popped_spec : s.popped.Sound ∧ s.popped.Published ∧ s.popped.core = s.core ∧
    s.popped.rout = s.responseRing.next s.rout := by
  obtain ⟨hringed, hpublished, hcore, hrout⟩ := hs.ringed.popped
  exact ⟨hs.of_core hcore hringed, hpublished, hcore, hrout⟩

theorem queue_popped (h : s.rin ≠ s.rout) :
    s.queue = s.responseCells.getD s.rout 0 :: s.popped.queue :=
  hs.ringed.queue_popped h

/-- Taking a word takes it from the front of all responses to come. -/
theorem caughtUp_popped (h : s.rin ≠ s.rout) :
    s.caughtUp = s.popped.caughtUp.behind blank [s.responseCells.getD s.rout 0] := by
  have hcore : s.popped.core = s.core := (popped_spec hs).2.2.1
  rw [caughtUp, caughtUp, commandWords_congr hcore, behind_responseWords s,
    behind_responseWords s.popped, hcore, queue_popped hs h, ← absorbAll_behind]
  rfl

theorem Sound.responseWords_eq_nil : s.responseWords = [] ↔ s.rin = s.rout :=
  hs.ringed.responseWords_eq_nil

theorem Published.pending (hp : s.Published) (h : s.queue ≠ []) : s.rin ≠ s.rout :=
  hs.ringed.pending (by rw [hs.responseCapacity]; decide) hp h

theorem alert_of_empty (hlost : s.lostDoorbells = some 0) (h : s.queue = []) : s.Alert := by
  obtain ⟨hring, -⟩ := List.append_eq_nil_iff.mp h
  have hzero := (Ring.pending_eq_zero hs.rin hs.rout).mpr (hs.responseWords_eq_nil.mp hring)
  refine ⟨hlost, .inr ?_⟩
  unfold room Ring.free Ring.usable
  rw [hzero, hs.responseCapacity]
  omega

end Words

/-! ### Addresses -/

/-- A slot is found at its own address, unless the ring runs out of the address space. -/
theorem slotIndex?_slot {start : UInt32} {i n : Nat} (hi : i < n) (hspace : start.toNat + 4 * n < 2 ^ 32) :
    slotIndex? start (start + .ofNat (4 * n)) (start + .ofNat (4 * i)) = some i := by
  have at_slot : ∀ k ≤ n, (start + UInt32.ofNat (4 * k)).toNat = start.toNat + 4 * k := by
    intro k hk
    rw [UInt32.toNat_add, UInt32.toNat_ofNat']
    omega
  have hle : start ≤ start + .ofNat (4 * i) := by
    rw [UInt32.le_iff_toNat_le, at_slot i hi.le]
    omega
  have hlt : start + .ofNat (4 * i) < start + .ofNat (4 * n) := by
    rw [UInt32.lt_iff_toNat_lt, at_slot i hi.le, at_slot n le_rfl]
    omega
  have hindex : ((start + .ofNat (4 * i) - start) / 4).toNat = i := by
    rw [UInt32.toNat_div, UInt32.toNat_sub_of_le _ _ hle, at_slot i hi.le]
    show (start.toNat + 4 * i - start.toNat) / 4 = i
    omega
  rw [slotIndex?, if_pos ⟨hle, hlt⟩, hindex]

/-- The registers through which the host reads responses, and the slots of their ring, are at addresses of
their own: whatever is looked up before them is elsewhere. -/
structure Unshared (map : RegisterMap) : Prop where
  responseOut : map.responseOut ≠ map.commandIn
  responseIn : map.responseIn ∉
    [map.commandIn, map.responseOut, map.urgent, map.interrupts, map.commandOut]
  doorbell : map.doorbellFromSdm ∉ [map.commandIn, map.responseOut, map.urgent, map.interrupts,
    map.commandOut, map.responseIn, map.status]
  slots : ∀ i < map.responseSlots, map.responseSlot i ∉ [map.commandIn, map.responseOut, map.urgent,
    map.interrupts, map.commandOut, map.responseIn, map.status, map.doorbellFromSdm, map.doorbellToSdm]
  commands : ∀ i < map.responseSlots, slotIndex? map.commandBuffer
    (map.commandSlot map.commandSlots) (map.responseSlot i) = none
  space : map.responseBuffer.toNat + 4 * map.responseSlots < 2 ^ 32

theorem unshared_usual : Unshared {} where
  responseOut := by decide
  responseIn := by decide
  doorbell := by decide
  slots := by decide
  commands := by decide
  space := by decide

theorem wrap_ofNat {r : Ring} {c : Nat} (hc : c < r.capacity) (hr : r.capacity ≤ 2 ^ 32) :
    r.wrap (UInt32.ofNat c).toNat = c := by
  rw [UInt32.toNat_ofNat', Nat.mod_eq_of_lt (by omega), Ring.wrap_of_lt hc]

namespace Unshared

variable (h : Unshared s.map)
include h

theorem capacity_le : s.responseRing.capacity ≤ 2 ^ 32 := by
  have := h.space
  show s.map.responseSlots ≤ 2 ^ 32
  omega

theorem read_responseOut : s.readRegister s.map.responseOut = .ofNat s.rout := by
  rw [readRegister, if_neg h.responseOut, if_pos rfl]

theorem read_responseIn : s.readRegister s.map.responseIn = .ofNat s.rin := by
  have hother := h.responseIn
  simp only [List.mem_cons, List.not_mem_nil, or_false, not_or] at hother
  simp [readRegister, hother]

theorem read_doorbell : s.readRegister s.map.doorbellFromSdm = s.doorbell := by
  have hother := h.doorbell
  simp only [List.mem_cons, List.not_mem_nil, or_false, not_or] at hother
  simp [readRegister, hother]

theorem read_slot (hs : s.Ringed) :
    s.readRegister (s.map.responseSlot s.rout) = s.responseCells.getD s.rout 0 := by
  have hother := h.slots s.rout hs.rout
  have hcommand : s.commandIndex? (s.map.responseSlot s.rout) = none := h.commands s.rout hs.rout
  have hresponse : s.responseIndex? (s.map.responseSlot s.rout) = some s.rout :=
    slotIndex?_slot hs.rout h.space
  simp only [List.mem_cons, List.not_mem_nil, or_false, not_or] at hother
  simp [readRegister, hother, hcommand, hresponse]

theorem returns_clear : Returns (writeRegister s.map.doorbellFromSdm 0) s () { s with doorbell := 0 } := by
  have hother := h.doorbell
  simp only [List.mem_cons, List.not_mem_nil, or_false, not_or] at hother
  unfold writeRegister
  refine (Returns.get s).bind ?_
  simp only [hother, if_false, if_true]
  exact .set _ _

theorem returns_pop (hs : s.Ringed) :
    Returns (writeRegister s.map.responseOut (.ofNat (s.responseRing.next s.rout))) s () s.popped := by
  have hnext : s.responseRing.next s.rout < s.responseRing.capacity :=
    Ring.next_lt (by have := hs.rout; omega) _
  unfold writeRegister
  refine (Returns.get s).bind ?_
  rw [if_neg h.responseOut, if_pos rfl, wrap_ofNat hnext h.capacity_le, hs.whenSlotted]
  exact (Returns.orAbort _ _).bind <| (Returns.set _ _).bind hs.turned.returns_publish

end Unshared

/-! ### Registers -/

section Registers

variable (hs : s.Sound)
include hs

theorem readRegister_commandIn : s.readRegister ({} : RegisterMap).commandIn = .ofNat s.cin := by
  simp [readRegister, hs.map]

theorem readRegister_commandOut : s.readRegister ({} : RegisterMap).commandOut = .ofNat s.cout := by
  simp [readRegister, hs.map]

theorem Sound.unshared : Unshared s.map :=
  hs.map ▸ unshared_usual

theorem readRegister_responseIn : s.readRegister ({} : RegisterMap).responseIn = .ofNat s.rin :=
  hs.map ▸ hs.unshared.read_responseIn

theorem readRegister_responseOut : s.readRegister ({} : RegisterMap).responseOut = .ofNat s.rout :=
  hs.map ▸ hs.unshared.read_responseOut

omit hs in
/-- The slots of a ring are registers of their own. -/
theorem slots_decoded : (∀ i : Fin 32, ({} : RegisterMap).commandSlot i ∉
      ([0x00, 0x04, 0x08, 0x0c, 0x20, 0x24, 0x2c, 0x480, 0x400] : List UInt32) ∧
      slotIndex? 0x40 0xc0 (({} : RegisterMap).commandSlot i) = some i.val) ∧
    (∀ i : Fin 16, ({} : RegisterMap).responseSlot i ∉
      ([0x00, 0x04, 0x08, 0x0c, 0x20, 0x24, 0x2c, 0x480, 0x400] : List UInt32) ∧
      slotIndex? 0x40 0xc0 (({} : RegisterMap).responseSlot i) = none ∧
      slotIndex? 0xc0 0x100 (({} : RegisterMap).responseSlot i) = some i.val) := by decide

omit hs in
theorem ring_ends : ({} : RegisterMap).commandSlot 32 = 0xc0 ∧
    ({} : RegisterMap).responseSlot 16 = 0x100 := by decide

theorem readRegister_response :
    s.readRegister (({} : RegisterMap).responseSlot s.rout) = s.responseCells.getD s.rout 0 :=
  hs.map ▸ hs.unshared.read_slot hs.ringed

theorem returns_clear :
    Returns (writeRegister ({} : RegisterMap).doorbellFromSdm 0) s () { s with doorbell := 0 } :=
  hs.map ▸ hs.unshared.returns_clear

theorem returns_ring (hu : s.urgent = 0) :
    Returns (writeRegister ({} : RegisterMap).doorbellToSdm 1) s () s.rung := by
  unfold writeRegister
  refine (Returns.get s).bind ?_
  simp only [hs.map]
  exact returns_onDoorbell hs hu

theorem returns_fill (word : UInt32) :
    Returns (writeRegister (({} : RegisterMap).commandSlot s.cin) word) s ()
      { s with commandCells := s.commandCells.setIfInBounds s.cin word } := by
  have hlt : s.cin < 32 := hs.commandCapacity ▸ hs.cin
  obtain ⟨hother, hcommand⟩ := slots_decoded.1 ⟨s.cin, hlt⟩
  simp only [List.mem_cons, List.not_mem_nil, or_false, not_or] at hother
  unfold writeRegister
  refine (Returns.get s).bind ?_
  simp only [hs.map, hother, if_false, commandIndex?, ring_ends, hcommand]
  exact .set _ _

theorem returns_push (word : UInt32) :
    Returns (writeRegister ({} : RegisterMap).commandIn (.ofNat (s.commandRing.next s.cin)))
      { s with commandCells := s.commandCells.setIfInBounds s.cin word } () (s.pushed word) := by
  have hnext : s.commandRing.next s.cin < s.commandRing.capacity :=
    Ring.next_lt (by have := hs.cin; omega) _
  unfold writeRegister
  refine (Returns.get _).bind ?_
  rw [if_pos (by rw [hs.map]), show commandRing { s with
    commandCells := s.commandCells.setIfInBounds s.cin word } = s.commandRing from rfl,
    wrap_ofNat hnext (by rw [hs.commandCapacity]; decide), hs.whenSlotted_command]
  exact (Returns.orAbort _ _).bind (.set _ _)

theorem returns_pop :
    Returns (writeRegister ({} : RegisterMap).responseOut (.ofNat (s.responseRing.next s.rout))) s ()
      s.popped :=
  hs.map ▸ hs.unshared.returns_pop hs.ringed

end Registers

end RemoteUpdate.EmulatedSdm
