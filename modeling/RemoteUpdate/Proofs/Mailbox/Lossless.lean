import RemoteUpdate.Proofs.Mailbox.Calls
import RemoteUpdate.Proofs.Sdm.Stirring

/-!
# Nothing gets lost in the rings

A device manager that works whenever it likes: before every access of the host it may take words from the
command ring, publish responses, or have something go wrong, as often as it likes and in any order. A ledger
beside it says which words the host has handed over and taken, and which responses have been generated.
Whatever the host does, the words handed over are the words received followed by those in the command ring,
and the words generated are the words taken followed by those in the response ring and in the outbox.
-/

namespace RemoteUpdate

open EmulatedSdm Mailbox

/-- What the device manager does of its own accord, or what goes wrong with it. -/
inductive Deed where
  /-- As many words are taken from the command ring, if it holds as many. -/
  | consume (count : Nat)
  | publish
  | fault (f : Fault)
  | freeze (frozen : Bool)
  | truncate (words : Nat)
  | move (first second : UInt32)

/-- The deed is done. -/
def Deed.perform : Deed → StateT EmulatedSdm LogM Unit
  | .consume count => do
    let s ← get
    consumeWords (min count (s.commandRing.pending s.cin s.cout))
  | .publish => EmulatedSdm.publish
  | .fault f => modify f.inject
  | .freeze frozen => modify fun s => { s with acknowledgeFrozen := frozen }
  | .truncate words => modify (truncateStatus words)
  | .move first second => modify (moveTables first second)

/-- What the two sides of a mailbox have done so far. -/
structure Ledger where
  /-- The value that the host has read or written last. -/
  last : UInt32 := 0
  /-- The words that the host has handed over. -/
  accepted : List UInt32 := []
  /-- The words that the host has taken. -/
  taken : List UInt32 := []
  /-- The responses that the device manager has generated. -/
  generated : List Response := []

/-- The ledger after an access of the host. The host writes a word right before it moves its cursor of the
command ring over it, and reads a word right before it moves its cursor of the response ring over it. -/
def Ledger.enter (l : Ledger) : Access → Ledger
  | .read _ value => { l with last := value }
  | .write offset value =>
    if offset = ({} : RegisterMap).commandIn then
      { l with last := value, accepted := l.accepted ++ [l.last] }
    else if offset = ({} : RegisterMap).responseOut then
      { l with last := value, taken := l.taken ++ [l.last] }
    else { l with last := value }
  | .delay _ => l

/-- A device manager and its ledger. -/
structure Moment where
  sdm : EmulatedSdm
  ledger : Ledger := {}

namespace Moment

/-- The device manager has worked, and has executed commands on the way. -/
def advanced (x : Moment) (t : EmulatedSdm) : Moment where
  sdm := t
  ledger := { x.ledger with generated := x.ledger.generated ++ x.sdm.drawn (executedSince x.sdm t) }

/-- Both rings are lossless, and hold their words in order. -/
def Lossless (x : Moment) : Prop :=
  x.sdm.received.words ++ x.sdm.commandWords = x.ledger.accepted ∧
    x.ledger.taken ++ x.sdm.queue = Response.wire x.ledger.generated

end Moment

/-- A device manager that does what has been planned for each access of the host, before it serves it. -/
structure Restless where
  now : Moment
  /-- What is done before the next accesses. -/
  plan : List (List Deed) := []
  /-- How it has been after each deed and each access, latest first. -/
  past : List Moment := []

namespace Restless

/-- The moment is recorded. -/
def marked (r : Restless) : Restless :=
  { r with past := r.now :: r.past }

def work {α : Type} (x : StateT EmulatedSdm LogM α) : RegisterM Restless α :=
  focus (·.now.sdm) (fun t r => { r with now := r.now.advanced t }) x

def doAll : List Deed → RegisterM Restless Unit
  | [] => pure ()
  | deed :: deeds => do
    work deed.perform
    modify marked
    doAll deeds

/-- What has been planned for the next access is done. -/
def stir : RegisterM Restless Unit := do
  let r ← get
  set { r with plan := r.plan.tail }
  doAll (r.plan.headD [])

/-- The access is entered in the ledger. -/
def entered (a : Access) (r : Restless) : Restless :=
  marked { r with now := { r.now with ledger := r.now.ledger.enter a } }

/-- A device manager that has just been switched on, and what it is going to do. -/
def start (plan : List (List Deed)) : Restless where
  now := { sdm := fresh {} }
  plan

end Restless

instance : RegisterBlock Restless where
  read offset := do
    Restless.stir
    let value ← Restless.work (RegisterBlock.read offset)
    modify (Restless.entered (.read offset value))
    return value
  write offset value := do
    Restless.stir
    Restless.work (RegisterBlock.write offset value)
    modify (Restless.entered (.write offset value))
  delay micros := do
    Restless.stir
    Restless.work (RegisterBlock.delay micros)
    modify (Restless.entered (.delay micros))

/-! ### Deeds -/

theorem stirs_refl {s : EmulatedSdm} (hs : s.Sound) : Stirs s s :=
  stirs_of_flow hs rfl

theorem Deed.stirs (deed : Deed) {s : EmulatedSdm} (hs : s.Sound) :
    ∃ t, Returns deed.perform s () t ∧ Stirs s t := by
  cases deed with
  | consume count =>
    exact ⟨_, (Returns.get s).bind (returns_consumeWords hs _), stirs_drained hs (Nat.min_le_right _ _)⟩
  | publish => exact ⟨_, returns_publish hs, stirs_published hs⟩
  | fault f => exact ⟨_, .modify _ s, stirs_of_flow hs (by cases f <;> rfl)⟩
  | freeze frozen => exact ⟨_, .modify _ s, stirs_of_flow hs rfl⟩
  | truncate words => exact ⟨_, .modify _ s, stirs_of_flow hs rfl⟩
  | move first second => exact ⟨_, .modify _ s, stirs_of_flow hs rfl⟩

namespace Restless

variable {r t : Restless} {P : Restless → Prop}

theorem returns_work {α : Type} {x : StateT EmulatedSdm LogM α} {a : α} {s : EmulatedSdm}
    (h : Returns x r.now.sdm a s) : Returns (work x) r a { r with now := r.now.advanced s } := by
  unfold work
  apply Returns.focus
  exact h

/-- What holds whatever the device manager does of its own accord. -/
structure Unmoved (P : Restless → Prop) : Prop where
  sound : ∀ {r}, P r → r.now.sdm.Sound
  planned : ∀ {r} plan, P r → P { r with plan }
  advanced : ∀ {r s}, P r → Stirs r.now.sdm s → P { r with now := r.now.advanced s }
  marked : ∀ {r}, P r → P r.marked

theorem Unmoved.doAll (hP : Unmoved P) (deeds : List Deed) (hr : P r) :
    ∃ t, Returns (doAll deeds) r () t ∧ P t := by
  induction deeds generalizing r with
  | nil => exact ⟨r, .pure () r, hr⟩
  | cons deed deeds ih =>
    obtain ⟨s, hdeed, hstirs⟩ := deed.stirs (hP.sound hr)
    obtain ⟨t, hrest, ht⟩ := ih (hP.marked (hP.advanced hr hstirs))
    exact ⟨t, (returns_work hdeed).bind <| (Returns.modify _ _).bind hrest, ht⟩

theorem Unmoved.stir (hP : Unmoved P) (hr : P r) : ∃ t, Returns stir r () t ∧ P t := by
  obtain ⟨t, hdeeds, ht⟩ := hP.doAll (r.plan.headD []) (hP.planned r.plan.tail hr)
  exact ⟨t, (Returns.get r).bind <| (Returns.set r _).bind hdeeds, ht⟩

theorem unmoved_sound : Unmoved fun r => r.now.sdm.Sound where
  sound h := h
  planned _ h := h
  advanced _ h := h.sound
  marked h := h

section Accesses

variable {offset value : UInt32} {s : EmulatedSdm} (h : Returns stir r () t)
include h

theorem read_serves (offset : UInt32) : Serves (.read offset (t.now.sdm.readRegister offset)) r
    (entered (.read offset (t.now.sdm.readRegister offset))
      { t with now := t.now.advanced t.now.sdm }) := by
  have hread : Returns (RegisterBlock.read offset) t.now.sdm (t.now.sdm.readRegister offset) t.now.sdm :=
    (Returns.get _).bind (.pure _ _)
  exact h.bind <| (returns_work hread).bind <| (Returns.modify _ _).bind (.pure _ _)

theorem write_serves (hwrite : Returns (writeRegister offset value) t.now.sdm () s) :
    Serves (.write offset value) r
      (entered (.write offset value) { t with now := t.now.advanced s }) :=
  h.bind <| (returns_work hwrite).bind (.modify _ _)

theorem delay_serves (ht : t.now.sdm.Sound) (micros : Nat) : Serves (.delay micros) r
    (entered (.delay micros) { t with now := t.now.advanced t.now.sdm.ticked }) :=
  h.bind <| (returns_work (returns_tick ht)).bind (.modify _ _)

end Accesses

theorem responsive : Responsive fun r : Restless => r.now.sdm.Sound where
  read offset {r} hr := by
    obtain ⟨t, hstir, ht⟩ := unmoved_sound.stir hr
    exact ⟨_, _, read_serves hstir offset, ht⟩
  write offset value {r} hr := by
    obtain ⟨t, hstir, ht⟩ := unmoved_sound.stir hr
    obtain ⟨_, s, hwrite, hs, -⟩ := keeps_writeRegister offset value t.now.sdm ht
    exact ⟨_, write_serves hstir hwrite, hs⟩
  delay micros {r} hr := by
    obtain ⟨t, hstir, ht⟩ := unmoved_sound.stir hr
    exact ⟨_, delay_serves hstir ht micros, (stirs_ticked ht).sound⟩

end Restless

/-! ### What the driver relies on -/

namespace Moment

variable {x : Moment} {s : EmulatedSdm} {p : Stage}

theorem Lossless.advanced (h : x.Lossless) (hs : Stirs x.sdm s) : (x.advanced s).Lossless := by
  constructor
  · exact hs.consumes.trans h.1
  · show x.ledger.taken ++ s.queue = Response.wire (x.ledger.generated ++ _)
    rw [hs.responds, Response.wire_append, ← h.2, List.append_assoc]

/-- What is so at a stage of the driver. -/
def Fits (x : Moment) : Stage → Prop
  | .offering cin _ => x.sdm.cin = cin
  | .roomy cin => x.sdm.cin = cin ∧ 0 < x.sdm.commandRing.free x.sdm.cin x.sdm.cout
  | .placed cin word => x.sdm.cin = cin ∧ 0 < x.sdm.commandRing.free x.sdm.cin x.sdm.cout ∧
    x.sdm.commandCells.getD cin 0 = word ∧ x.ledger.last = word
  | .reading rout _ => x.sdm.rout = rout
  | .pending rout => x.sdm.rout = rout ∧ x.sdm.rin ≠ x.sdm.rout
  | .held rout word => x.sdm.rout = rout ∧ x.sdm.rin ≠ x.sdm.rout ∧
    x.sdm.queue.head? = some word ∧ x.ledger.last = word
  | .calling => False
  | _ => True

/-- What the device manager does of its own accord is nothing to the driver. -/
theorem Fits.advanced (h : x.Fits p) (hs : Stirs x.sdm s) : (x.advanced s).Fits p := by
  cases p with
  | offering cin delays => exact hs.cin.trans h
  | roomy cin => exact ⟨hs.cin.trans h.1, hs.room h.2⟩
  | placed cin word =>
    obtain ⟨hcin, hroom, hcell, hlast⟩ := h
    refine ⟨hs.cin.trans hcin, hs.room hroom, ?_, hlast⟩
    show s.commandCells.getD cin 0 = word
    rw [hs.commandCells]
    exact hcell
  | reading rout delays => exact hs.rout.trans h
  | pending rout => exact ⟨hs.rout.trans h.1, hs.pending h.2⟩
  | held rout word =>
    obtain ⟨hrout, hpending, hhead, hlast⟩ := h
    refine ⟨hs.rout.trans hrout, hs.pending hpending, ?_, hlast⟩
    show s.queue.head? = some word
    rw [hs.responds, List.head?_append, hhead]
    rfl
  | calling => exact h
  | _ => trivial

theorem advanced_same (h : s.log = x.sdm.log) : x.advanced s = ⟨s, x.ledger⟩ := by
  unfold advanced
  rw [executedSince_same h, drawn, List.append_nil]

end Moment

def busyHost (timing : Timing) : Mailbox Restless :=
  { timing }

/-- The driver is at a stage, and nothing has been lost so far. -/
structure Faithful (p : Stage) (r : Restless) : Prop where
  sound : r.now.sdm.Sound
  urgent : r.now.sdm.urgent = 0
  fits : r.now.Fits p
  now : r.now.Lossless
  past : ∀ x ∈ r.past, x.Lossless

namespace Faithful

variable {p q : Stage} {r t : Restless} {offset value : UInt32} {s : EmulatedSdm}

theorem unmoved (p : Stage) : Restless.Unmoved (Faithful p) where
  sound h := h.sound
  planned _ h := ⟨h.sound, h.urgent, h.fits, h.now, h.past⟩
  advanced h hs := ⟨hs.sound, hs.urgent.trans h.urgent, h.fits.advanced hs, h.now.advanced hs, h.past⟩
  marked h := ⟨h.sound, h.urgent, h.fits, h.now, List.forall_mem_cons.mpr ⟨h.now, h.past⟩⟩

/-- A read finds the register as it is once the device manager has done what it was going to do. -/
theorem serves_read (h : Faithful p r) (hs : Serves (.read offset value) r t) :
    ∃ r', Faithful p r' ∧ value = r'.now.sdm.readRegister offset ∧
      t = r'.entered (.read offset value) := by
  obtain ⟨u, hstir, hu⟩ := (unmoved p).stir h
  obtain ⟨rfl, rfl⟩ := hs.unique (Restless.read_serves hstir offset)
  exact ⟨_, (unmoved p).advanced hu (stirs_refl hu.sound), rfl, rfl⟩

theorem serves_write (h : Faithful p r) (hs : Serves (.write offset value) r t) :
    ∃ r', Faithful p r' ∧ ∀ s, Returns (writeRegister offset value) r'.now.sdm () s →
      t = Restless.entered (.write offset value) { r' with now := r'.now.advanced s } := by
  obtain ⟨u, hstir, hu⟩ := (unmoved p).stir h
  exact ⟨u, hu, fun s hwrite => (hs.unique (Restless.write_serves hstir hwrite)).2⟩

theorem serves_delay {micros : Nat} (h : Faithful p r) (hs : Serves (.delay micros) r t) :
    ∃ r', Faithful p r' ∧ t = r'.entered (.delay micros) := by
  obtain ⟨u, hstir, hu⟩ := (unmoved p).stir h
  have hserves := Restless.delay_serves hstir hu.sound micros
  exact ⟨_, (unmoved p).advanced hu (stirs_ticked hu.sound), (hs.unique hserves).2⟩

/-- An access takes the driver to another stage. -/
theorem entered {a : Access} (hsound : r.now.sdm.Sound) (hurgent : r.now.sdm.urgent = 0)
    (hfits : Moment.Fits ⟨r.now.sdm, r.now.ledger.enter a⟩ q)
    (hnow : Moment.Lossless ⟨r.now.sdm, r.now.ledger.enter a⟩) (hpast : ∀ x ∈ r.past, x.Lossless) :
    Faithful q (r.entered a) :=
  ⟨hsound, hurgent, hfits, hnow, List.forall_mem_cons.mpr ⟨hnow, hpast⟩⟩

theorem read (h : Faithful p r) (hs : Serves (.read offset value) r t)
    (hfits : ∀ x : Moment, x.sdm.Sound → x.Fits p → value = x.sdm.readRegister offset →
      Moment.Fits ⟨x.sdm, x.ledger.enter (.read offset value)⟩ q) : Faithful q t := by
  obtain ⟨u, hu, hvalue, rfl⟩ := h.serves_read hs
  exact entered hu.sound hu.urgent (hfits u.now hu.sound hu.fits hvalue) hu.now hu.past

theorem delay {micros : Nat} (h : Faithful p r) (hs : Serves (.delay micros) r t)
    (hfits : ∀ x : Moment, x.Fits p → x.Fits q) : Faithful q t := by
  obtain ⟨u, hu, rfl⟩ := h.serves_delay hs
  exact entered hu.sound hu.urgent (hfits u.now hu.fits) hu.now hu.past

/-- Neither doorbell moves a word of its own accord. -/
theorem ring (h : Faithful p r) (hs : Serves (.write ({} : RegisterMap).doorbellToSdm 1) r t)
    (hfits : ∀ x : Moment, x.Fits p → ∀ last, Moment.Fits ⟨x.sdm, { x.ledger with last }⟩ q) :
    Faithful q t := by
  obtain ⟨u, hu, ht⟩ := h.serves_write hs
  have hstirs := stirs_rung hu.sound
  have hv := (unmoved p).advanced hu hstirs
  rw [ht _ (returns_ring hu.sound hu.urgent)]
  exact entered hv.sound hv.urgent (hfits _ hv.fits 1) hv.now hv.past

theorem clear (h : Faithful p r) (hs : Serves (.write ({} : RegisterMap).doorbellFromSdm 0) r t) :
    Faithful .cleared t := by
  obtain ⟨u, hu, ht⟩ := h.serves_write hs
  have hstirs : Stirs u.now.sdm { u.now.sdm with doorbell := 0 } := stirs_of_flow hu.sound rfl
  have hv := (unmoved p).advanced hu hstirs
  rw [ht _ (returns_clear hu.sound)]
  exact entered hv.sound hv.urgent trivial hv.now hv.past

theorem commandRing_eq (hs : s.Sound) (timing : Timing) :
    (busyHost timing).commandRing = s.commandRing := by
  rw [EmulatedSdm.commandRing, hs.map]
  rfl

theorem responseRing_eq (hs : s.Sound) (timing : Timing) :
    (busyHost timing).responseRing = s.responseRing := by
  rw [EmulatedSdm.responseRing, hs.map]
  rfl

/-! ### Sending -/

theorem setIfInBounds_getD (cells : Array UInt32) (i : Nat) :
    cells.setIfInBounds i (cells.getD i 0) = cells := by
  apply Array.ext
  · exact Array.size_setIfInBounds
  · intro j hj hj'
    rw [Array.getElem_setIfInBounds]
    split
    next hij =>
      subst hij
      simp [hj']
    next => rfl

/-- A word is put into a slot that is not in use. -/
theorem place {cin : Nat} {word : UInt32} (h : Faithful (.roomy cin) r)
    (hs : Serves (.write (({} : RegisterMap).commandSlot cin) word) r t) :
    Faithful (.placed cin word) t := by
  obtain ⟨u, hu, ht⟩ := h.serves_write hs
  obtain ⟨rfl, hroom⟩ := hu.fits
  have hsound := hu.sound
  have hlt : u.now.sdm.cin < 32 := hsound.commandCapacity ▸ hsound.cin
  have hsize : u.now.sdm.cin < u.now.sdm.commandCells.size := hsound.commandCells ▸ hsound.cin
  -- the slot is no cursor, so nothing but the value is entered in the ledger
  have henter : u.now.ledger.enter (.write (({} : RegisterMap).commandSlot u.now.sdm.cin) word) =
      { u.now.ledger with last := word } := by
    have hother := (slots_decoded.1 ⟨u.now.sdm.cin, hlt⟩).1
    simp only [List.mem_cons, not_or] at hother
    exact (if_neg hother.1).trans (if_neg hother.2.1)
  have hsame : u.now.advanced { u.now.sdm with
      commandCells := u.now.sdm.commandCells.setIfInBounds u.now.sdm.cin word } = ⟨_, u.now.ledger⟩ :=
    Moment.advanced_same rfl
  rw [ht _ (returns_fill hsound word), hsame]
  apply entered
  · refine ⟨hsound.map, hsound.cin, hsound.cout, hsound.rin, hsound.rout, ?_, hsound.responseCells⟩
    rw [Array.size_setIfInBounds]
    exact hsound.commandCells
  · exact hu.urgent
  · rw [henter]
    refine ⟨rfl, hroom, ?_, rfl⟩
    simp [Array.getD_eq_getD_getElem?, hsize]
  · rw [henter]
    refine ⟨?_, hu.now.2⟩
    show u.now.sdm.received.words ++ u.now.sdm.commandRing.contents _ _ _ = u.now.ledger.accepted
    rw [Ring.contents_fill hsound.cin hsound.cout]
    exact hu.now.1
  · exact hu.past

theorem push {cin : Nat} {word : UInt32} (timing : Timing) (h : Faithful (.placed cin word) r)
    (hs : Serves (.write ({} : RegisterMap).commandIn
      (.ofNat ((busyHost timing).commandRing.next cin))) r t) :
    Faithful (.offering ((busyHost timing).commandRing.next cin) 0) t := by
  obtain ⟨u, hu, ht⟩ := h.serves_write hs
  obtain ⟨rfl, hroom, hcell, hlast⟩ := hu.fits
  have hsound := hu.sound
  -- the word is in the slot already
  have hfilled : { u.now.sdm with
      commandCells := u.now.sdm.commandCells.setIfInBounds u.now.sdm.cin word } = u.now.sdm := by
    rw [← hcell, setIfInBounds_getD]
  have hpush := returns_push hsound word
  rw [hfilled, ← commandRing_eq hsound timing] at hpush
  have hsame : u.now.advanced (u.now.sdm.pushed word) = ⟨_, u.now.ledger⟩ := Moment.advanced_same rfl
  have hnow := hu.now
  rw [ht _ hpush, hsame]
  apply entered
  · exact hsound.pushed word
  · exact hu.urgent
  · exact congrArg (Ring.next · _) (commandRing_eq hsound timing).symm
  · constructor
    · show (u.now.sdm.pushed word).received.words ++ (u.now.sdm.pushed word).commandWords =
        u.now.ledger.accepted ++ [u.now.ledger.last]
      rw [commandWords_pushed hsound hroom, hlast, ← hnow.1, List.append_assoc]
      rfl
    · exact hnow.2
  · exact hu.past

/-! ### Taking -/

theorem take {rout : Nat} {word : UInt32} (h : Faithful (.pending rout) r)
    (hs : Serves (.read (({} : RegisterMap).responseSlot rout) word) r t) :
    Faithful (.held rout word) t := by
  apply h.read hs
  rintro x hx ⟨rfl, hpending⟩ rfl
  refine ⟨rfl, hpending, ?_, rfl⟩
  rw [readRegister_response hx, queue_popped hx hpending]
  rfl

theorem release {rout : Nat} {word : UInt32} (timing : Timing) (h : Faithful (.held rout word) r)
    (hs : Serves (.write ({} : RegisterMap).responseOut
      (.ofNat ((busyHost timing).responseRing.next rout))) r t) :
    Faithful (.reading ((busyHost timing).responseRing.next rout) 0) t := by
  obtain ⟨u, hu, ht⟩ := h.serves_write hs
  obtain ⟨rfl, hpending, hhead, hlast⟩ := hu.fits
  have hsound := hu.sound
  have hpop := returns_pop hsound
  obtain ⟨hpopped, -, hcore, hrout⟩ := popped_spec hsound
  have hlog : u.now.sdm.popped.log = u.now.sdm.log := congr_core EmulatedSdm.log hcore
  have hqueue := queue_popped hsound hpending
  -- the word was read while it stood first in the queue, and the cursor has not moved since
  have hword : u.now.sdm.responseCells.getD u.now.sdm.rout 0 = word := by
    rw [hqueue] at hhead
    exact Option.some.inj hhead
  rw [← responseRing_eq hsound timing] at hpop hrout
  rw [ht _ hpop, Moment.advanced_same hlog]
  apply entered
  · exact hpopped
  · exact (congr_core EmulatedSdm.urgent hcore).trans hu.urgent
  · exact hrout
  · constructor
    · exact (congr_core (fun s => s.received.words ++ s.commandWords) hcore).trans hu.now.1
    · show u.now.ledger.taken ++ [u.now.ledger.last] ++ u.now.sdm.popped.queue = _
      rw [hlast, ← hword, List.append_assoc, List.singleton_append, ← hqueue]
      exact hu.now.2
  · exact hu.past

/-! ### Cursors -/

section Cursors

variable (hs : s.Sound) (timing : Timing)
include hs

theorem wrap_commandIn (h : value = s.readRegister ({} : RegisterMap).commandIn) :
    (busyHost timing).commandRing.wrap value.toNat = s.cin := by
  rw [h, readRegister_commandIn hs, commandRing_eq hs timing, wrap_ofNat hs.cin (by rw [hs.commandCapacity]; decide)]

theorem wrap_responseIn (h : value = s.readRegister ({} : RegisterMap).responseIn) :
    (busyHost timing).responseRing.wrap value.toNat = s.rin := by
  rw [h, readRegister_responseIn hs, responseRing_eq hs timing,
    wrap_ofNat hs.rin (by rw [hs.responseCapacity]; omega)]

theorem wrap_responseOut (h : value = s.readRegister ({} : RegisterMap).responseOut) :
    (busyHost timing).responseRing.wrap value.toNat = s.rout := by
  rw [h, readRegister_responseOut hs, responseRing_eq hs timing,
    wrap_ofNat hs.rout (by rw [hs.responseCapacity]; omega)]

theorem free_of_not_full (h : value = s.readRegister ({} : RegisterMap).commandOut)
    (hfull : (busyHost timing).commandRing.isFull s.cin value.toNat = false) :
    0 < s.commandRing.free s.cin s.cout := by
  have hcout : s.cout < 32 := hs.commandCapacity ▸ hs.cout
  have hvalue : value.toNat = s.cout := by
    rw [h, readRegister_commandOut hs, UInt32.toNat_ofNat', Nat.mod_eq_of_lt (by omega)]
  rw [hvalue, commandRing_eq hs timing, Bool.eq_false_iff, Ne, Ring.isFull_iff hs.cin hs.cout] at hfull
  exact Nat.pos_of_ne_zero hfull

end Cursors

/-- Whatever access the driver makes, nothing gets lost. -/
theorem step {timing : Timing} {a : Access} (move : Move (busyHost timing) p a q) (hs : Serves a r t)
    (h : Faithful p r) : Faithful q t := by
  -- only a word placed, pushed, taken or released changes a queue, and reads keep what these rely on
  cases move with
  | rest micros => exact h.delay hs fun _ _ => trivial
  | start value => exact h.read hs fun x hx _ hvalue => (wrap_commandIn hx timing hvalue).symm
  | full hfull => exact h.read hs fun x _ hfits _ => hfits
  | nudge cin delays => exact h.ring hs fun x hfits _ => hfits
  | stall hlt micros => exact h.delay hs fun x hfits => hfits
  | room hfull =>
    apply h.read hs
    rintro x hx rfl hvalue
    exact ⟨rfl, free_of_not_full hx timing hvalue hfull⟩
  | place cin word => exact h.place hs
  | push cin word => exact h.push timing hs
  | ring cin delays => exact h.ring hs fun _ _ _ => trivial
  | status value => exact h.fits.elim
  | call opcode => exact h.fits.elim
  | shout => exact h.fits.elim
  | confirm value => exact h.read hs fun _ _ _ _ => trivial
  | quiet hvalue => exact h.read hs fun _ _ _ _ => trivial
  | pass hvalue => exact h.read hs fun _ _ _ _ => trivial
  | sleep micros => exact h.delay hs fun _ _ => trivial
  | hear hvalue => exact h.read hs fun _ _ _ _ => trivial
  | clear => exact h.clear hs
  | locate value => exact h.read hs fun x hx _ hvalue => (wrap_responseOut hx timing hvalue).symm
  | drained hvalue => exact h.read hs fun _ _ _ _ => trivial
  | empty hvalue => exact h.read hs fun x _ hfits _ => hfits
  | await hlt micros => exact h.delay hs fun x hfits => hfits
  | found hne =>
    apply h.read hs
    rintro x hx rfl hvalue
    refine ⟨rfl, ?_⟩
    rw [← wrap_responseIn hx timing hvalue]
    exact hne
  | take rout word => exact h.take hs
  | release rout word => exact h.release timing hs

/-- Between two errands the driver relies on nothing. -/
theorem reopen (hq : Errand.Rests q) (h : Faithful p r) : Faithful q r where
  sound := h.sound
  urgent := h.urgent
  fits := by
    rcases hq with rfl | rfl
    · trivial
    · trivial
  now := h.now
  past := h.past

theorem start (plan : List (List Deed)) : Faithful .idle (Restless.start plan) where
  sound := sound_fresh
  urgent := rfl
  fits := trivial
  now := by
    have hsound := sound_fresh
    have hcommands : (EmulatedSdm.fresh {}).commandWords = [] := hsound.commandWords_eq_nil.mpr rfl
    have hresponses : (EmulatedSdm.fresh {}).responseWords = [] := hsound.responseWords_eq_nil.mpr rfl
    constructor
    · show (EmulatedSdm.fresh {}).received.words ++ (EmulatedSdm.fresh {}).commandWords = []
      rw [hcommands]
      rfl
    · show [] ++ ((EmulatedSdm.fresh {}).responseWords ++ []) = _
      rw [hresponses]
      rfl
  past := fun _ h => absurd h List.not_mem_nil

end Faithful

/-- Whatever the driver is asked for, whatever the device manager does of its own accord between any two
accesses, and whatever goes wrong: every errand comes to an end, and at no moment has a word been lost,
doubled, overwritten or put out of order in either ring. -/
theorem rings_lossless (timing : Timing) (plan : List (List Deed)) (errands : List Errand) :
    ∃ r, Returns (Errand.run (busyHost timing) errands) (Restless.start plan) () r ∧
      ∀ x ∈ r.now :: r.past, x.Lossless := by
  have hundertakes := Errand.undertakes_run (m := busyHost timing) Restless.responsive
    (show 32 ≠ 0 by decide) (show 16 ≠ 0 by decide) errands
  obtain ⟨_, r, trails, hrun, -, hcourse, -⟩ := hundertakes (Restless.start plan) sound_fresh
  obtain ⟨q, hq⟩ := hcourse.keeps (P := fun p _ r => Faithful p r) Faithful.step Faithful.reopen []
    (Faithful.start plan)
  exact ⟨r, hrun, List.forall_mem_cons.mpr ⟨hq.now, hq.past⟩⟩

end RemoteUpdate
