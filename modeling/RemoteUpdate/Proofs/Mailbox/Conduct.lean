import RemoteUpdate.Mailbox.Exchange
import RemoteUpdate.Proofs.Mailbox.Headers
import RemoteUpdate.Proofs.Runs

/-!
# The conduct of the driver

What the driver does to a register block, access by access, whatever the block answers. A `Stage` is what
the driver knows between two accesses, a `Move` is an access that it may make at a stage, and a `Path` is a
sequence of moves that a block has served. `Conducts` says of a program that it returns, and that all it
does on the way is a path. What holds of a mailbox at every access then follows from what one move keeps.
-/

namespace RemoteUpdate

variable {ρ α β : Type} [RegisterBlock ρ]

/-! ### Register blocks -/

/-- The block serves the access, whatever has been logged so far. -/
def Serves : Access → ρ → ρ → Prop
  | .read offset value, s, t => Returns (RegisterBlock.read offset) s value t
  | .write offset value, s, t => Returns (RegisterBlock.write offset value) s () t
  | .delay micros, s, t => Returns (RegisterBlock.delay micros) s () t

/-- The block serves every access, and keeps an invariant. What a read returns is up to the block. -/
structure Responsive (I : ρ → Prop) : Prop where
  read : ∀ offset {s}, I s → ∃ value t, Serves (.read offset value) s t ∧ I t
  write : ∀ offset value {s}, I s → ∃ t, Serves (.write offset value) s t ∧ I t
  delay : ∀ micros {s}, I s → ∃ t, Serves (.delay micros) s t ∧ I t

/-- However an access is served, the invariant is kept. -/
theorem Responsive.keeps {I : ρ → Prop} (hI : Responsive I) {a : Access} {s t : ρ} (h : Serves a s t)
    (hs : I s) : I t := by
  cases a with
  | read offset value =>
    obtain ⟨_, _, hserves, ht⟩ := hI.read offset hs
    exact (h.unique hserves).2 ▸ ht
  | write offset value =>
    obtain ⟨_, hserves, ht⟩ := hI.write offset value hs
    exact (h.unique hserves).2 ▸ ht
  | delay micros =>
    obtain ⟨_, hserves, ht⟩ := hI.delay micros hs
    exact (h.unique hserves).2 ▸ ht

abbrev RegisterMap.ring (map : RegisterMap) : Ring :=
  ⟨map.responseSlots⟩

/-- The registers in which the host and the device manager speak of responses are registers of their own,
and there are slots in both rings. -/
structure RegisterMap.Separate (map : RegisterMap) : Prop where
  commandSlots : map.commandSlots ≠ 0
  responseSlots : map.responseSlots ≠ 0
  cursors : map.responseSlots ≤ 2 ^ 32
  responseOut : map.responseOut ∉ [map.commandIn, map.doorbellToSdm]
  doorbell : map.doorbellFromSdm ∉
    [map.commandIn, map.commandOut, map.responseIn, map.responseOut, map.status]
  commands : ∀ i < map.commandSlots, map.commandSlot i ∉ [map.responseOut, map.doorbellFromSdm]
  responses : ∀ i < map.responseSlots, map.responseSlot i ≠ map.doorbellFromSdm

theorem RegisterMap.separate : ({} : RegisterMap).Separate where
  commandSlots := by decide
  responseSlots := by decide
  cursors := by decide
  responseOut := by decide
  doorbell := by decide
  commands := by decide
  responses := by decide

namespace Recorder

section Records

omit [RegisterBlock ρ]

theorem returns_onBlock {x : RegisterM ρ α} {r : Recorder ρ} {a : α} {b : ρ}
    (h : Returns x r.block a b) : Returns (onBlock x) r a { r with block := b } :=
  h.focus

theorem accesses_onBlock {x : RegisterM ρ α} {r t : Recorder ρ} {a : α} {log log' : Log}
    (h : onBlock x r log = some ((a, t), log')) : t.accesses = r.accesses := by
  change (x r.block log).bind (fun y => some ((y.1.1, { r with block := y.1.2 }), y.2)) = _ at h
  cases hx : x r.block log with
  | none => simp [hx] at h
  | some y =>
    simp only [hx, Option.bind_some, Option.some.injEq, Prod.mk.injEq] at h
    rw [← h.1.2]

end Records

theorem responsive {I : ρ → Prop} (hI : Responsive I) : Responsive fun r : Recorder ρ => I r.block where
  read offset {r} hr := by
    obtain ⟨value, b, hserves, hb⟩ := hI.read offset hr
    exact ⟨value, _, (returns_onBlock hserves).bind <| (Returns.modify _ _).bind (.pure _ _), hb⟩
  write offset value {r} hr := by
    obtain ⟨b, hserves, hb⟩ := hI.write offset value hr
    exact ⟨_, (Returns.modify _ r).bind (returns_onBlock (r := { r with accesses := _ }) hserves), hb⟩
  delay micros {r} hr := by
    obtain ⟨b, hserves, hb⟩ := hI.delay micros hr
    exact ⟨_, (Returns.modify _ r).bind (returns_onBlock (r := { r with accesses := _ }) hserves), hb⟩

theorem serves {I : ρ → Prop} (hI : Responsive I) {a : Access} {r t : Recorder ρ} (hr : I r.block)
    (h : Serves a r t) : Serves a r.block t.block := by
  cases a with
  | read offset value =>
    obtain ⟨_, b, hserves, -⟩ := hI.read offset hr
    obtain ⟨rfl, rfl⟩ := h.unique <|
      (returns_onBlock hserves).bind <| (Returns.modify _ _).bind (.pure _ _)
    exact hserves
  | write offset value =>
    obtain ⟨b, hserves, -⟩ := hI.write offset value hr
    obtain ⟨-, rfl⟩ := h.unique <|
      (Returns.modify _ r).bind (returns_onBlock (r := { r with accesses := _ }) hserves)
    exact hserves
  | delay micros =>
    obtain ⟨b, hserves, -⟩ := hI.delay micros hr
    obtain ⟨-, rfl⟩ := h.unique <|
      (Returns.modify _ r).bind (returns_onBlock (r := { r with accesses := _ }) hserves)
    exact hserves

theorem accesses_serves {a : Access} {r t : Recorder ρ} (h : Serves a r t) :
    t.accesses = r.accesses.push a := by
  cases a with
  | read offset value =>
    obtain ⟨log, h⟩ := h #[]
    change (onBlock (RegisterBlock.read offset) r #[]).bind (fun y => some ((y.1.1,
      { y.1.2 with accesses := y.1.2.accesses.push (.read offset y.1.1) }), y.2)) = _ at h
    cases hx : onBlock (RegisterBlock.read offset) r #[] with
    | none => simp [hx] at h
    | some y =>
      simp only [hx, Option.bind_some, Option.some.injEq, Prod.mk.injEq] at h
      rw [← h.1.2, h.1.1, ← accesses_onBlock hx]
  | write offset value =>
    obtain ⟨log, h⟩ := h #[]
    exact accesses_onBlock (r := { r with accesses := r.accesses.push (.write offset value) }) h
  | delay micros =>
    obtain ⟨log, h⟩ := h #[]
    exact accesses_onBlock (r := { r with accesses := r.accesses.push (.delay micros) }) h

end Recorder

namespace Mailbox

/-! ### Stages -/

/-- What the driver knows between two accesses. -/
inductive Stage where
  /-- Nothing is under way. -/
  | idle
  /-- A word is to go to this slot of the command ring. So often there was no room for it. -/
  | offering (cin delays : Nat)
  /-- There is room in this slot. -/
  | roomy (cin : Nat)
  /-- The word is in the slot. -/
  | placed (cin : Nat) (word : UInt32)
  /-- An urgent command is being sent. -/
  | calling
  /-- The doorbell is to be looked at. -/
  | looking
  /-- The doorbell has been seen raised. -/
  | heard
  /-- The doorbell has been dealt with. -/
  | cleared
  /-- Words are to be read from this slot of the response ring. So often there was none. -/
  | reading (rout delays : Nat)
  /-- There is a word in this slot. -/
  | pending (rout : Nat)
  /-- The word has been read from the slot. -/
  | held (rout : Nat) (word : UInt32)
deriving DecidableEq

/-- The accesses that the driver makes, and where they take it. -/
inductive Move (m : Mailbox ρ) : Stage → Access → Stage → Prop where
  | rest (micros : Nat) : Move m .idle (.delay micros) .idle
  | start (value : UInt32) : Move m .idle (.read m.map.commandIn value)
      (.offering (m.commandRing.wrap value.toNat) 0)
  | full {cin delays : Nat} {value : UInt32} (h : m.commandRing.isFull cin value.toNat = true) :
      Move m (.offering cin delays) (.read m.map.commandOut value) (.offering cin delays)
  | nudge (cin delays : Nat) :
      Move m (.offering cin delays) (.write m.map.doorbellToSdm 1) (.offering cin delays)
  | stall {cin delays : Nat} (h : delays < m.timing.commandPolls) (micros : Nat) :
      Move m (.offering cin delays) (.delay micros) (.offering cin (delays + 1))
  | room {cin delays : Nat} {value : UInt32} (h : m.commandRing.isFull cin value.toNat = false) :
      Move m (.offering cin delays) (.read m.map.commandOut value) (.roomy cin)
  | place (cin : Nat) (word : UInt32) :
      Move m (.roomy cin) (.write (m.map.commandSlot cin) word) (.placed cin word)
  | push (cin : Nat) (word : UInt32) :
      Move m (.placed cin word) (.write m.map.commandIn (.ofNat (m.commandRing.next cin)))
        (.offering (m.commandRing.next cin) 0)
  | ring (cin delays : Nat) :
      Move m (.offering cin delays) (.write m.map.doorbellToSdm 1) .looking
  | status (value : UInt32) : Move m .calling (.read m.map.status value) .calling
  | call (opcode : UInt32) : Move m .calling (.write m.map.urgent opcode) .calling
  | shout : Move m .calling (.write m.map.doorbellToSdm 1) .looking
  | confirm (value : UInt32) : Move m .cleared (.read m.map.status value) .cleared
  | quiet {value : UInt32} (h : value &&& 1 = 0) :
      Move m .looking (.read m.map.doorbellFromSdm value) .looking
  | pass {value : UInt32} (h : value &&& 1 = 0) :
      Move m .looking (.read m.map.doorbellFromSdm value) .cleared
  | sleep (micros : Nat) : Move m .looking (.delay micros) .looking
  | hear {value : UInt32} (h : value &&& 1 ≠ 0) :
      Move m .looking (.read m.map.doorbellFromSdm value) .heard
  | clear : Move m .heard (.write m.map.doorbellFromSdm 0) .cleared
  | locate (value : UInt32) : Move m .cleared (.read m.map.responseOut value)
      (.reading (m.responseRing.wrap value.toNat) 0)
  | drained {rout delays : Nat} {value : UInt32} (h : m.responseRing.wrap value.toNat = rout) :
      Move m (.reading rout delays) (.read m.map.responseIn value) .looking
  | empty {rout delays : Nat} {value : UInt32} (h : m.responseRing.wrap value.toNat = rout) :
      Move m (.reading rout delays) (.read m.map.responseIn value) (.reading rout delays)
  | await {rout delays : Nat} (h : delays < m.timing.dataPolls) (micros : Nat) :
      Move m (.reading rout delays) (.delay micros) (.reading rout (delays + 1))
  | found {rout delays : Nat} {value : UInt32} (h : m.responseRing.wrap value.toNat ≠ rout) :
      Move m (.reading rout delays) (.read m.map.responseIn value) (.pending rout)
  | take (rout : Nat) (word : UInt32) :
      Move m (.pending rout) (.read (m.map.responseSlot rout) word) (.held rout word)
  | release (rout : Nat) (word : UInt32) :
      Move m (.held rout word) (.write m.map.responseOut (.ofNat (m.responseRing.next rout)))
        (.reading (m.responseRing.next rout) 0)

/-! ### Paths -/

/-- Accesses, oldest first, each with the stage at which it was made. -/
abbrev Trail := List (Stage × Access)

def Trail.accesses (trail : Trail) : List Access :=
  trail.map Prod.snd

def Trail.looks (trail : Trail) : Nat :=
  trail.countP fun
    | (.looking, .read _ _) => true
    | _ => false

def Trail.delays (trail : Trail) : Nat :=
  trail.countP fun
    | (_, .delay _) => true
    | _ => false

def Trail.taken (trail : Trail) : List UInt32 :=
  trail.filterMap fun
    | (.held _ word, .write _ _) => some word
    | _ => none

section Trails

variable (trail later : Trail)

@[simp] theorem accesses_append : (trail ++ later).accesses = trail.accesses ++ later.accesses :=
  List.map_append

@[simp] theorem looks_append : (trail ++ later).looks = trail.looks + later.looks :=
  List.countP_append

@[simp] theorem delays_append : (trail ++ later).delays = trail.delays + later.delays :=
  List.countP_append

@[simp] theorem taken_append : (trail ++ later).taken = trail.taken ++ later.taken :=
  List.filterMap_append

end Trails

/-- The block has served the driver from one stage to another. -/
inductive Path (m : Mailbox ρ) : Stage → ρ → Trail → Stage → ρ → Prop where
  | nil (p : Stage) (s : ρ) : Path m p s [] p s
  | cons {p p' q : Stage} {s t u : ρ} {a : Access} {trail : Trail} (move : Move m p a p')
      (serves : Serves a s t) (rest : Path m p' t trail q u) : Path m p s ((p, a) :: trail) q u

variable {m : Mailbox ρ} {p q r : Stage} {s t u : ρ} {trail later : Trail}

theorem Path.trans (h : Path m p s trail q t) (h' : Path m q t later r u) :
    Path m p s (trail ++ later) r u := by
  induction h with
  | nil => exact h'
  | cons move serves rest ih => exact .cons move serves (ih h')

theorem Path.keeps {P : Stage → Trail → ρ → Prop}
    (step : ∀ {p a q past s t}, Move m p a q → Serves a s t → P p past s → P q (past ++ [(p, a)]) t)
    (h : Path m p s trail q t) (past : Trail) (hp : P p past s) : P q (past ++ trail) t := by
  induction h generalizing past with
  | nil p s => rwa [List.append_nil]
  | cons move serves rest ih =>
    have hrest := ih _ (step move serves hp)
    rwa [List.append_assoc, List.singleton_append] at hrest

/-- The record of a block that is recorded grows by what the driver does. -/
theorem Path.recorded {m : Mailbox (Recorder ρ)} {r r' : Recorder ρ} (h : Path m p r trail q r') :
    r'.accesses.toList = r.accesses.toList ++ trail.accesses := by
  induction h with
  | nil => exact (List.append_nil _).symm
  | cons move serves rest ih =>
    rw [ih, Recorder.accesses_serves serves, Array.toList_push, List.append_assoc]
    rfl

/-! ### Programs -/

/-- From every state with the invariant the program returns, with the invariant, and what it does from
stage `p` on is a path of this kind. -/
def Conducts (m : Mailbox ρ) (I : ρ → Prop) (x : RegisterM ρ α) (p : Stage)
    (Q : α → Trail → Stage → Prop) : Prop :=
  ∀ s, I s → ∃ a t trail q, Returns x s a t ∧ I t ∧ Path m p s trail q t ∧ Q a trail q

section Rules

variable {I : ρ → Prop} {Q : α → Trail → Stage → Prop} {R : β → Trail → Stage → Prop} {a : α}

theorem Conducts.pure (h : Q a [] p) : Conducts m I (Pure.pure a) p Q := by
  intro s hs
  exact ⟨a, s, [], p, .pure a s, hs, .nil p s, h⟩

theorem Conducts.bind {x : RegisterM ρ α} {f : α → RegisterM ρ β} (h : Conducts m I x p Q)
    (h' : ∀ a trail q, Q a trail q →
      Conducts m I (f a) q fun b later r => R b (trail ++ later) r) :
    Conducts m I (x >>= f) p R := by
  intro s hs
  obtain ⟨a, t, trail, q, hx, ht, hpath, ha⟩ := h s hs
  obtain ⟨b, u, later, r, hf, hu, hpath', hb⟩ := h' a trail q ha t ht
  exact ⟨b, u, trail ++ later, r, hx.bind hf, hu, hpath.trans hpath', hb⟩

theorem Conducts.mono {x : RegisterM ρ α} {Q' : α → Trail → Stage → Prop} (h : Conducts m I x p Q)
    (h' : ∀ a trail q, Q a trail q → Q' a trail q) : Conducts m I x p Q' := by
  intro s hs
  obtain ⟨a, t, trail, q, hx, ht, hpath, ha⟩ := h s hs
  exact ⟨a, t, trail, q, hx, ht, hpath, h' a trail q ha⟩

protected theorem Conducts.discard {x : RegisterM ρ α} (h : Conducts m I x p Q) :
    Conducts m I (discard x) p fun _ trail q => ∃ a, Q a trail q := by
  intro s hs
  obtain ⟨a, t, trail, q, hx, ht, hpath, ha⟩ := h s hs
  exact ⟨(), t, trail, q, hx.discard, ht, hpath, a, ha⟩

theorem Conducts.run_bind {x : MailboxM ρ α} {f : α → MailboxM ρ β}
    {Q : Except MailboxError α → Trail → Stage → Prop}
    {R : Except MailboxError β → Trail → Stage → Prop} (h : Conducts m I x.run p Q)
    (hok : ∀ a trail q, Q (.ok a) trail q →
      Conducts m I (f a).run q fun b later r => R b (trail ++ later) r)
    (herror : ∀ e trail q, Q (.error e) trail q → R (.error e) trail q) :
    Conducts m I (x >>= f).run p R := by
  intro s hs
  obtain ⟨result, t, trail, q, hx, ht, hpath, hq⟩ := h s hs
  cases result with
  | error e => exact ⟨.error e, t, trail, q, Ends.bind_error hx, ht, hpath, herror e trail q hq⟩
  | ok a =>
    obtain ⟨b, u, later, r, hf, hu, hpath', hb⟩ := hok a trail q hq t ht
    exact ⟨b, u, trail ++ later, r, Ends.bind hx hf, hu, hpath.trans hpath', hb⟩

theorem Conducts.lift {x : RegisterM ρ α} {R : Except MailboxError α → Trail → Stage → Prop}
    (h : Conducts m I x p fun a => R (.ok a)) :
    Conducts m I (liftM x : MailboxM ρ α).run p R := by
  intro s hs
  obtain ⟨a, t, trail, q, hx, ht, hpath, hq⟩ := h s hs
  exact ⟨.ok a, t, trail, q, Ends.lift hx, ht, hpath, hq⟩

theorem Conducts.lift_bind {x : RegisterM ρ α} {f : α → MailboxM ρ β}
    {R : Except MailboxError β → Trail → Stage → Prop} (h : Conducts m I x p Q)
    (h' : ∀ a trail q, Q a trail q →
      Conducts m I (f a).run q fun b later r => R b (trail ++ later) r) :
    Conducts m I (liftM x >>= f).run p R := by
  intro s hs
  obtain ⟨a, t, trail, q, hx, ht, hpath, hq⟩ := h s hs
  obtain ⟨b, u, later, r, hf, hu, hpath', hb⟩ := h' a trail q hq t ht
  exact ⟨b, u, trail ++ later, r, Ends.bind (Ends.lift hx) hf, hu, hpath.trans hpath', hb⟩

theorem Conducts.run_discard {x : MailboxM ρ α} {Q : Except MailboxError α → Trail → Stage → Prop}
    (h : Conducts m I x.run p Q) : Conducts m I (discard x).run p fun r trail q =>
      ∃ r', Q r' trail q ∧ r = r'.map fun _ => () := by
  intro s hs
  obtain ⟨r, t, trail, q, hx, ht, hpath, hq⟩ := h s hs
  refine ⟨r.map fun _ => (), t, trail, q, ?_, ht, hpath, r, hq, rfl⟩
  cases r with
  | error e => exact Ends.discard_error hx
  | ok a => exact Ends.discard_ok hx

/-- The driver stays where it is and touches nothing. -/
def Stays (p : Stage) (trail : Trail) (q : Stage) : Prop :=
  trail = [] ∧ q = p

theorem conducts_log (m : Mailbox ρ) (I : ρ → Prop) (p : Stage) (e : MailboxEvent) :
    Conducts m I (m.log e) p fun _ => Stays p := by
  intro s hs
  exact ⟨(), s, [], p, .emit _ s, hs, .nil p s, rfl, rfl⟩

theorem conducts_orAbort (m : Mailbox ρ) (I : ρ → Prop) (p : Stage) (a : α) :
    Conducts m I (liftM (orAbort (some a))) p fun b trail q => b = a ∧ Stays p trail q := by
  intro s hs
  exact ⟨a, s, [], p, .orAbort a s, hs, .nil p s, rfl, rfl, rfl⟩

variable (hI : Responsive I)
include hI

theorem conducts_read {offset : UInt32} (next : UInt32 → Stage)
    (h : ∀ value, Move m p (.read offset value) (next value)) :
    Conducts m I (m.read offset) p
      fun value trail q => trail = [(p, .read offset value)] ∧ q = next value := by
  intro s hs
  obtain ⟨value, t, hserves, ht⟩ := hI.read offset hs
  exact ⟨value, t, _, _, hserves, ht, .cons (h value) hserves (.nil _ t), rfl, rfl⟩

theorem conducts_write {offset value : UInt32} (h : Move m p (.write offset value) q) :
    Conducts m I (m.write offset value) p
      fun _ trail r => trail = [(p, .write offset value)] ∧ r = q := by
  intro s hs
  obtain ⟨t, hserves, ht⟩ := hI.write offset value hs
  exact ⟨(), t, _, _, hserves, ht, .cons h hserves (.nil _ t), rfl, rfl⟩

theorem conducts_delay {micros : Nat} (h : Move m p (.delay micros) q) :
    Conducts m I (m.delay micros) p
      fun _ trail r => trail = [(p, .delay micros)] ∧ r = q := by
  intro s hs
  obtain ⟨t, hserves, ht⟩ := hI.delay micros hs
  exact ⟨(), t, _, _, hserves, ht, .cons h hserves (.nil _ t), rfl, rfl⟩

theorem conducts_cursor {ring : Ring} (hring : ring.capacity ≠ 0) {offset : UInt32}
    (next : Nat → Stage)
    (h : ∀ value : UInt32, Move m p (.read offset value) (next (ring.wrap value.toNat))) :
    Conducts m I (m.cursor ring offset) p fun c trail q =>
      (∃ value : UInt32, c = ring.wrap value.toNat ∧ trail = [(p, .read offset value)]) ∧
        q = next c := by
  unfold cursor
  refine (conducts_read hI (fun value => next (ring.wrap value.toNat)) h).bind ?_
  rintro value _ _ ⟨rfl, rfl⟩
  rw [Ring.whenSlotted, if_neg hring]
  refine (conducts_orAbort m I _ _).mono ?_
  rintro _ _ _ ⟨rfl, rfl, rfl⟩
  exact ⟨⟨value, rfl, rfl⟩, rfl⟩

end Rules

end Mailbox

end RemoteUpdate
