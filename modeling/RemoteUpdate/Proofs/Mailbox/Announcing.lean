import Mathlib.Logic.Relation
import RemoteUpdate.Proofs.Mailbox.Calls
import RemoteUpdate.Proofs.Mailbox.Streaming

/-!
# No doorbell is lost

A device manager publishes words and rings the host's doorbell afterwards, in a step of its own, and both
whenever it likes. The driver clears the doorbell before it looks for words, and looks until there are none.
So when it finds the doorbell silent and goes to sleep, there are no words for it, or the device manager is
going to ring for them.
-/

namespace RemoteUpdate

/-! ### Announcements -/

/-- What a device manager has published, and what it has told the host about it. -/
structure Notice where
  /-- Producer cursor of the response ring. -/
  rin : Nat
  /-- Consumer cursor of the response ring. -/
  rout : Nat
  /-- The doorbell of the host is raised. -/
  raised : Bool
  /-- Words have been published since the doorbell was rung last. -/
  unannounced : Bool

namespace Notice

/-- A step of the device manager. It never runs over the host's cursor, and never clears the doorbell. -/
inductive Step (ring : Ring) : Notice → Notice → Prop where
  | publish (v : Notice) (room : 0 < ring.free v.rin v.rout) :
      Step ring v { v with rin := ring.next v.rin, unannounced := true }
  | announce (v : Notice) : Step ring v { v with raised := true, unannounced := false }

/-- The device manager takes any number of steps. -/
abbrev Steps (ring : Ring) : Notice → Notice → Prop :=
  Relation.ReflTransGen (Step ring)

/-- What an access of the host says of the notice, and what becomes of it. -/
def Shows (map : RegisterMap) (v w : Notice) : Access → Prop
  | .read offset value => w = v ∧
    (offset = map.responseIn → map.ring.wrap value.toNat = v.rin) ∧
    (offset = map.responseOut → map.ring.wrap value.toNat = v.rout) ∧
    (offset = map.doorbellFromSdm → (value &&& 1 ≠ 0 ↔ v.raised = true))
  | .write offset value => w = { v with
    rout := if offset = map.responseOut then map.ring.wrap value.toNat else v.rout
    raised := if offset = map.doorbellFromSdm then value &&& 1 != 0 else v.raised }
  | .delay _ => w = v

end Notice

/-- Behind the registers is a device manager that announces what it has published, but not at once. -/
def Announces {ρ : Type} [RegisterBlock ρ] (map : RegisterMap) (I : ρ → Prop) (notice : ρ → Notice) : Prop :=
  ∀ {a s t}, I s → Serves a s t → ∃ v,
    Notice.Steps map.ring (notice s) v ∧ v.Shows map (notice t) a

/-! ### Watching -/

/-- A register block together with its state after every access to it. -/
structure Film (ρ : Type) where
  block : ρ
  /-- The accesses and the states after them, latest first. -/
  scenes : List (Access × ρ) := []

namespace Film

variable {ρ : Type}

/-- Runs a program on the block itself. -/
def onBlock {α : Type} (x : RegisterM ρ α) : RegisterM (Film ρ) α :=
  focus block (fun b f => { f with block := b }) x

def shot (a : Access) (f : Film ρ) : Film ρ :=
  { f with scenes := (a, f.block) :: f.scenes }

end Film

instance {ρ : Type} [RegisterBlock ρ] : RegisterBlock (Film ρ) where
  read offset := do
    let value ← Film.onBlock (RegisterBlock.read offset)
    modify (Film.shot (.read offset value))
    return value
  write offset value := do
    Film.onBlock (RegisterBlock.write offset value)
    modify (Film.shot (.write offset value))
  delay micros := do
    Film.onBlock (RegisterBlock.delay micros)
    modify (Film.shot (.delay micros))

namespace Film

variable {ρ : Type} [RegisterBlock ρ] {I : ρ → Prop} (hI : Responsive I)
include hI

theorem responsive : Responsive fun f : Film ρ => I f.block where
  read offset {f} hf := by
    obtain ⟨value, b, hserves, hb⟩ := hI.read offset hf
    exact ⟨value, _, hserves.focus.bind <| (Returns.modify _ _).bind (.pure _ _), hb⟩
  write offset value {f} hf := by
    obtain ⟨b, hserves, hb⟩ := hI.write offset value hf
    exact ⟨_, hserves.focus.bind (.modify _ _), hb⟩
  delay micros {f} hf := by
    obtain ⟨b, hserves, hb⟩ := hI.delay micros hf
    exact ⟨_, hserves.focus.bind (.modify _ _), hb⟩

theorem serves {a : Access} {f g : Film ρ} (hf : I f.block) (h : Serves a f g) :
    Serves a f.block g.block ∧ g.scenes = (a, g.block) :: f.scenes := by
  cases a with
  | read offset value =>
    obtain ⟨_, b, hserves, -⟩ := hI.read offset hf
    have hfilm : Returns (onBlock (RegisterBlock.read offset)) f _ { f with block := b } := hserves.focus
    obtain ⟨rfl, rfl⟩ := h.unique (hfilm.bind <| (Returns.modify _ _).bind (.pure _ _))
    exact ⟨hserves, rfl⟩
  | write offset value =>
    obtain ⟨b, hserves, -⟩ := hI.write offset value hf
    have hfilm : Returns (onBlock (RegisterBlock.write offset value)) f _ { f with block := b } :=
      hserves.focus
    obtain ⟨-, rfl⟩ := h.unique (hfilm.bind (.modify _ _))
    exact ⟨hserves, rfl⟩
  | delay micros =>
    obtain ⟨b, hserves, -⟩ := hI.delay micros hf
    have hfilm : Returns (onBlock (RegisterBlock.delay micros)) f _ { f with block := b } :=
      hserves.focus
    obtain ⟨-, rfl⟩ := h.unique (hfilm.bind (.modify _ _))
    exact ⟨hserves, rfl⟩

end Film

/-! ### Sleeping soundly -/

namespace Notice

open Mailbox

variable {map : RegisterMap} {v w : Notice}

/-- Whoever waits for the doorbell will hear of what is in the response ring. -/
def Safe (v : Notice) : Prop :=
  v.rin = v.rout ∨ v.unannounced = true ∨ v.raised = true

theorem Steps.safe {ring : Ring} (h : Steps ring v w) (hv : v.Safe) : w.Safe := by
  induction h with
  | refl => exact hv
  | tail _ step ih =>
    cases step with
    | publish room => exact .inr (.inl rfl)
    | announce => exact .inr (.inr rfl)

theorem Steps.rout {ring : Ring} (h : Steps ring v w) : w.rout = v.rout := by
  induction h with
  | refl => rfl
  | tail _ step ih =>
    cases step with
    | publish room => exact ih
    | announce => exact ih

/-- What is so at a stage of the driver: while it does not know where it stands in the response ring, it may
wait for the doorbell. -/
def At (map : RegisterMap) (v : Notice) : Stage → Prop
  | .idle | .looking => v.Safe
  | .offering cin _ | .roomy cin | .placed cin _ => v.Safe ∧ cin < map.commandSlots
  | .reading rout _ | .pending rout | .held rout _ => v.rout = rout ∧ rout < map.responseSlots
  | .heard | .cleared => True
  | .calling => False

theorem At.steps {ring : Ring} {p : Stage} (h : v.At map p) (hs : Steps ring v w) : w.At map p := by
  cases p with
  | idle => exact hs.safe h
  | looking => exact hs.safe h
  | offering cin delays => exact ⟨hs.safe h.1, h.2⟩
  | roomy cin => exact ⟨hs.safe h.1, h.2⟩
  | placed cin word => exact ⟨hs.safe h.1, h.2⟩
  | reading rout delays => exact ⟨hs.rout.trans h.1, h.2⟩
  | pending rout => exact ⟨hs.rout.trans h.1, h.2⟩
  | held rout word => exact ⟨hs.rout.trans h.1, h.2⟩
  | heard => trivial
  | cleared => trivial
  | calling => exact h

theorem Shows.elsewhere {offset value : UInt32} (h : v.Shows map w (.write offset value))
    (hother : offset ∉ [map.responseOut, map.doorbellFromSdm]) : w = v := by
  simp only [List.mem_cons, List.not_mem_nil, or_false, not_or] at hother
  change w = _ at h
  rw [h, if_neg hother.1, if_neg hother.2]

/-- Ringing the doorbell of the device manager is no harm. -/
theorem Safe.ring (hmap : map.Separate) (h : v.Safe) (hshows : v.Shows map w (.write map.doorbellToSdm 1)) :
    w.Safe := by
  have hother := hmap.responseOut
  simp only [List.mem_cons, List.not_mem_nil, or_false, not_or] at hother
  change w = _ at hshows
  rw [hshows, if_neg (Ne.symm hother.2)]
  rcases h with hempty | hlate | hloud
  · exact .inl hempty
  · exact .inr (.inl hlate)
  · refine .inr (.inr ?_)
    show (if _ then _ else v.raised) = true
    rw [hloud]
    split
    · decide
    · rfl

/-- If the access finds the doorbell silent, there is nothing in the response ring that has been
announced. -/
def Asleep (map : RegisterMap) (w : Notice) (a : Access) : Prop :=
  ∀ value, a = .read map.doorbellFromSdm value → value &&& 1 = 0 →
    w.rin = w.rout ∨ w.unannounced = true

theorem Safe.asleep {value : UInt32} (h : v.Safe)
    (hshows : v.Shows map w (.read map.doorbellFromSdm value)) :
    w.Asleep map (.read map.doorbellFromSdm value) := by
  obtain ⟨rfl, -, -, hraised⟩ := hshows
  rintro _ ⟨⟩ hvalue
  rcases h with hempty | hlate | hloud
  · exact .inl hempty
  · exact .inr hlate
  · exact absurd hvalue ((hraised rfl).mpr hloud)

theorem asleep_elsewhere {offset value : UInt32} (h : offset ≠ map.doorbellFromSdm) :
    w.Asleep map (.read offset value) := by
  rintro _ ⟨⟩
  exact absurd rfl h

/-- Whatever access the driver makes, it knows where it stands, or may wait for the doorbell. -/
theorem At.step {ρ : Type} {m : Mailbox ρ} {p q : Stage} {a : Access} (hmap : m.map.Separate)
    (move : Move m p a q) (h : v.At m.map p) (hshows : v.Shows m.map w a) :
    w.At m.map q ∧ w.Asleep m.map a := by
  have hdoorbell := hmap.doorbell
  have hout := hmap.responseOut
  simp only [List.mem_cons, List.not_mem_nil, or_false, not_or] at hdoorbell hout
  obtain ⟨hcommandIn, hcommandOut, hresponseIn, hresponseOut, hstatus⟩ := hdoorbell
  have hcommands : 0 < m.map.commandSlots := Nat.pos_of_ne_zero hmap.commandSlots
  have hresponses : 0 < m.map.responseSlots := Nat.pos_of_ne_zero hmap.responseSlots
  cases move with
  | rest micros => exact ⟨hshows ▸ h, nofun⟩
  | start value =>
    obtain ⟨rfl, -⟩ := hshows
    exact ⟨⟨h, Ring.wrap_lt hcommands _⟩, asleep_elsewhere (Ne.symm hcommandIn)⟩
  | full hfull =>
    obtain ⟨rfl, -⟩ := hshows
    exact ⟨h, asleep_elsewhere (Ne.symm hcommandOut)⟩
  | nudge cin delays => exact ⟨⟨h.1.ring hmap hshows, h.2⟩, nofun⟩
  | stall hlt micros => exact ⟨hshows ▸ h, nofun⟩
  | room hfull =>
    obtain ⟨rfl, -⟩ := hshows
    exact ⟨h, asleep_elsewhere (Ne.symm hcommandOut)⟩
  | place cin word =>
    rw [hshows.elsewhere (hmap.commands cin h.2)]
    exact ⟨h, nofun⟩
  | push cin word =>
    have hother : m.map.commandIn ∉ [m.map.responseOut, m.map.doorbellFromSdm] := by
      simp only [List.mem_cons, List.not_mem_nil, or_false, not_or]
      exact ⟨Ne.symm hout.1, Ne.symm hcommandIn⟩
    rw [hshows.elsewhere hother]
    exact ⟨⟨h.1, Ring.next_lt hcommands _⟩, nofun⟩
  | ring cin delays => exact ⟨h.1.ring hmap hshows, nofun⟩
  | status value => exact h.elim
  | call opcode => exact h.elim
  | shout => exact h.elim
  | confirm value => exact ⟨trivial, asleep_elsewhere (Ne.symm hstatus)⟩
  | quiet hvalue => exact ⟨hshows.1 ▸ h, h.asleep hshows⟩
  | pass hvalue => exact ⟨trivial, h.asleep hshows⟩
  | sleep micros => exact ⟨hshows ▸ h, nofun⟩
  | hear hvalue => exact ⟨trivial, h.asleep hshows⟩
  | clear => exact ⟨trivial, nofun⟩
  | locate value =>
    obtain ⟨rfl, -, hvalue, -⟩ := hshows
    exact ⟨⟨(hvalue rfl).symm, Ring.wrap_lt hresponses _⟩, asleep_elsewhere (Ne.symm hresponseOut)⟩
  | drained hvalue =>
    -- the ring has just been seen empty
    obtain ⟨rfl, hrin, -⟩ := hshows
    refine ⟨.inl ?_, asleep_elsewhere (Ne.symm hresponseIn)⟩
    rw [← hrin rfl, h.1]
    exact hvalue
  | empty hvalue =>
    obtain ⟨rfl, -⟩ := hshows
    exact ⟨h, asleep_elsewhere (Ne.symm hresponseIn)⟩
  | await hlt micros => exact ⟨hshows ▸ h, nofun⟩
  | found hne =>
    obtain ⟨rfl, -⟩ := hshows
    exact ⟨h, asleep_elsewhere (Ne.symm hresponseIn)⟩
  | take rout word =>
    obtain ⟨rfl, -⟩ := hshows
    exact ⟨h, asleep_elsewhere (hmap.responses rout h.2)⟩
  | release rout word =>
    have hnext : m.responseRing.next rout < m.map.responseSlots := Ring.next_lt hresponses _
    have hlt : m.responseRing.next rout < 2 ^ 32 := Nat.lt_of_lt_of_le hnext hmap.cursors
    refine ⟨⟨?_, hnext⟩, nofun⟩
    change w = _ at hshows
    rw [hshows]
    show (if _ then m.map.ring.wrap _ else _) = _
    rw [if_pos rfl, UInt32.toNat_ofNat', Nat.mod_eq_of_lt hlt]
    exact Ring.wrap_of_lt hnext

end Notice

/-! ### A device manager that announces -/

namespace Streamer

/-- What a device manager that streams has published and announced. -/
def notice (s : Streamer) : Notice where
  rin := ring.wrap s.published
  rout := ring.wrap s.taken
  raised := s.raised
  unannounced := s.unannounced

theorem steps_after (s : Streamer) (chore : Chore) : Notice.Steps ring s.notice (s.after chore).notice := by
  cases chore with
  | publish =>
    by_cases hroom : 0 < ring.free (ring.wrap s.published) (ring.wrap s.taken)
    · have hnext : ring.next s.notice.rin = ring.wrap (s.published + 1) :=
        Nat.mod_add_mod s.published 16 1
      have hstep := @Notice.Step.publish ring s.notice hroom
      rw [hnext] at hstep
      rw [after, if_pos hroom]
      exact .single hstep
    · rw [after, if_neg hroom]
  | announce => exact .single (.announce s.notice)

theorem steps_stirred (s : Streamer) : Notice.Steps ring s.notice s.stirred.notice := by
  have loop : ∀ (chores : List Chore) (u : Streamer),
      Notice.Steps ring u.notice (chores.foldl after u).notice := by
    intro chores
    induction chores with
    | nil => exact fun u => .refl
    | cons chore chores ih => exact fun u => (steps_after u chore).trans (ih _)
  exact loop _ { s with plan := s.plan.tail }

theorem wrap_add_pending (p c : Nat) : ring.wrap (c + ring.pending p c) = ring.wrap p := by
  show (c + (p + 16 - c % 16) % 16) % 16 = p % 16
  omega

theorem announces (stream : Nat → Response) :
    Announces {} (fun s : Streamer => s.stream = stream) notice := by
  intro a s t hs hserves
  refine ⟨s.stirred.notice, steps_stirred s, ?_⟩
  -- only releasing a word and clearing the doorbell change what there is to notice
  cases a with
  | read offset value =>
    obtain ⟨rfl, rfl⟩ := hserves.unique (s.serves_read offset)
    refine ⟨rfl, ?_, ?_, ?_⟩
    · rintro rfl
      exact wrap_cursor _
    · rintro rfl
      exact wrap_cursor _
    · rintro rfl
      show (if s.stirred.raised then (1 : UInt32) else 0) &&& 1 ≠ 0 ↔ s.stirred.raised = true
      cases s.stirred.raised <;> decide
  | write offset value =>
    obtain ⟨-, rfl⟩ := hserves.unique (s.serves_write offset value)
    show (s.stirred.written offset value).notice = _
    unfold written
    by_cases hout : offset = ({} : RegisterMap).responseOut
    · subst hout
      simp only [if_true, notice, wrap_add_pending]
      rfl
    · by_cases hbell : offset = ({} : RegisterMap).doorbellFromSdm
      · subst hbell
        rfl
      · simp only [if_neg hout, if_neg hbell]
  | delay micros =>
    obtain ⟨-, rfl⟩ := hserves.unique (s.serves_delay micros)
    rfl

end Streamer

namespace Mailbox

variable {ρ : Type} [RegisterBlock ρ] {I : ρ → Prop} {notice : ρ → Notice}

/-- The driver is at a stage, and whenever it has found the doorbell silent, it was right to sleep. -/
structure Watched (map : RegisterMap) (I : ρ → Prop) (notice : ρ → Notice) (p : Stage) (f : Film ρ) :
    Prop where
  block : I f.block
  stage : (notice f.block).At map p
  scenes : ∀ x ∈ f.scenes, (notice x.2).Asleep map x.1

theorem Watched.step {m : Mailbox (Film ρ)} (hI : Responsive I) (hmap : m.map.Separate)
    (hannounces : Announces m.map I notice) {p q : Stage} {a : Access} {f g : Film ρ}
    (move : Move m p a q) (hserves : Serves a f g) (h : Watched m.map I notice p f) :
    Watched m.map I notice q g := by
  obtain ⟨hblock, hshot⟩ := Film.serves hI h.block hserves
  obtain ⟨v, hsteps, hshows⟩ := hannounces h.block hblock
  obtain ⟨hstage, hasleep⟩ := (h.stage.steps hsteps).step hmap move hshows
  exact ⟨hI.keeps hblock h.block, hstage, hshot ▸ List.forall_mem_cons.mpr ⟨hasleep, h.scenes⟩⟩

/-- However the steps of the device manager fall between the accesses of an attempt: whenever the driver
finds the doorbell silent, the response ring is empty, or the device manager has published words for which
it has not rung yet. So the driver never sleeps on a response that has been announced. -/
theorem doorbell_heard (hI : Responsive I) (m : Mailbox (Film ρ)) (hmap : m.map.Separate)
    (hannounces : Announces m.map I notice) {s : ρ} (hs : I s)
    (hstart : (notice s).rin = (notice s).rout ∨ (notice s).raised = true) (opcode : UInt32)
    (arguments : List UInt32) (room : Nat) :
    ∃ a f, Returns (m.attempt opcode arguments false room) { block := s } a f ∧
      ∀ value t, (.read m.map.doorbellFromSdm value, t) ∈ f.scenes → value &&& 1 = 0 →
        (notice t).rin = (notice t).rout ∨ (notice t).unannounced = true := by
  have hsafe : (notice s).Safe := hstart.imp_right .inr
  have hwatched : Watched m.map I notice .idle { block := s } :=
    ⟨hs, hsafe, fun _ h => absurd h List.not_mem_nil⟩
  obtain ⟨a, f, trail, q, hrun, -, hpath, -⟩ := conducts_attempt_ordinary (Film.responsive hI)
    hmap.commandSlots hmap.responseSlots opcode arguments room { block := s } hs
  have hend := hpath.keeps (P := fun p _ f => Watched m.map I notice p f)
    (Watched.step hI hmap hannounces) [] hwatched
  exact ⟨a, f, hrun, fun value t hscene => hend.scenes _ hscene value rfl⟩

def plainAnswer : Response where
  header := ⟨0xb1000000⟩
  data := []
  whole := by decide

/-- A device manager that publishes an answer when the command has come, and rings for it two accesses
later. -/
def lateBell : Streamer where
  stream _ := plainAnswer
  plan := [[], [], [], [], [], [.publish], [], [.announce]]

theorem doorbell_heard_late : ∃ a f,
    Returns (({} : Mailbox (Film Streamer)).attempt 4 [] false 0) { block := lateBell } a f ∧
      (∀ value t, (.read 0x480 value, t) ∈ f.scenes → value &&& 1 = 0 →
        t.notice.rin = t.notice.rout ∨ t.notice.unannounced = true) ∧
      (a.result, f.scenes.length) = (.ok 0, 13) := by
  obtain ⟨a, f, hrun, hheard⟩ := doorbell_heard (Streamer.responsive fun _ => plainAnswer) {}
    RegisterMap.separate (Streamer.announces _) (s := lateBell) rfl (.inl rfl) 4 [] 0
  have hcount := hrun.computed (f := fun a f => (a.result, f.scenes.length)) (c := (.ok 0, 13))
    (by decide +kernel)
  exact ⟨a, f, hrun, hheard, hcount⟩

end Mailbox

end RemoteUpdate
