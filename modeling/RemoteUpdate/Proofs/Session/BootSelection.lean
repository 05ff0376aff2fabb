import RemoteUpdate.Proofs.Mailbox.Remembering
import RemoteUpdate.Proofs.Session.Frame
import RemoteUpdate.Session.Status

/-!
# Which image boots

A session asks the device manager for images by slot, by the name of the factory image or by offset, and has
it reboot; in between, slots come and go. However many responses to others stand in front of an answer, and
however often the device manager is busy: what it has selected is what the last accepted request asked for,
and a request that fails selects nothing.
-/

namespace RemoteUpdate

variable {φ : Type}

/-- What a session is asked about booting, and what happens to slots in between. -/
inductive BootRequest where
  | loadSlot (slot : ℕ)
  | loadFactory
  | update (offset : UInt64)
  | reboot
  | runningFactory
  | change (op : SlotOperation)

/-- What a request returns if it succeeds. -/
def BootRequest.Value : BootRequest → Type
  | .runningFactory => Bool
  | _ => Unit

/-- A request, with the responses to others and the busy answers that are in its way. -/
structure BootStep where
  request : BootRequest
  strays : ℕ := 0
  busy : ℕ := 0

/-- A request that has been served: what the device held and what was selected before, how it ended, and what
is selected now. -/
structure BootRecord where
  request : BootRequest
  found : ByteArray
  before : Selection
  result : Except UpdateError request.Value
  after : Selection

/-- The session with the device manager in another state. -/
def SessionState.withRegisters {ρ : Type} (s : SessionState ρ φ) (registers : ρ) : SessionState ρ φ :=
  { s with channel := { s.channel with registers } }

namespace Session

section Definitions

variable [FlashDevice φ]

def boot (c : Session EmulatedSdm) : (request : BootRequest) → SessionM EmulatedSdm φ request.Value
  | .loadSlot slot => c.loadSlot slot
  | .loadFactory => c.loadFactory
  | .update offset => c.update offset
  | .reboot => onMailbox c.mailbox.reboot
  | .runningFactory => c.runningFactory
  | .change op => c.perform op

/-- Puts something in the way of the next answers. -/
def obstruct (step : BootStep) (s : SessionState EmulatedSdm φ) : SessionState EmulatedSdm φ :=
  s.withRegisters ((s.channel.registers.injectStrays step.strays).injectBusy step.busy)

def bootAll [KeepsCells φ] (c : Session EmulatedSdm) :
    List BootStep → StateT (SessionState EmulatedSdm φ) LogM (List BootRecord)
  | [] => pure []
  | step :: rest => do
    modify (obstruct step)
    let s ← get
    let result ← (c.boot step.request).run
    let t ← get
    let others ← c.bootAll rest
    return {
      request := step.request
      found := KeepsCells.cells s.flash
      before := s.channel.registers.selection
      result
      after := t.channel.registers.selection } :: others

end Definitions

/-! ### What requests select -/

variable {c : Session EmulatedSdm} {cells : ByteArray} {factory : UInt64} {t : PartitionTable}
  {e : PartitionEntry}

/-- A protected entry at this offset has the name of the factory image, whenever the partition table can be
used. -/
def Factory (c : Session EmulatedSdm) (cells : ByteArray) (factory : UInt64) : Prop :=
  ∀ t, c.storedTable? cells = some t →
    ∃ e ∈ t.listed, e.isProtected = true ∧ e.isNamed c.layout.factoryName ∧ e.offset = factory

/-- How a request may end, by what the device holds and what is selected when it is made, and what is selected
then. -/
inductive Honours (c : Session EmulatedSdm) (factory : UInt64) (cells : ByteArray) (before : Selection) :
    (request : BootRequest) → Except UpdateError request.Value → Selection → Prop where
  | loaded {slot : ℕ} {t : PartitionTable} {e : PartitionEntry} (table : c.storedTable? cells = some t)
      (entry : t.listed[slot]? = some e) :
      Honours c factory cells before (.loadSlot slot) (.ok ()) { before with pending := some e.offset }
  | loadedFactory :
      Honours c factory cells before .loadFactory (.ok ()) { before with pending := some factory }
  | updated {offset : UInt64} :
      Honours c factory cells before (.update offset) (.ok ()) { before with pending := some offset }
  | rebooted : Honours c factory cells before .reboot (.ok ()) before.rebooted
  | answered {yes : Bool} (exact : yes = true ↔ before.current = factory) :
      Honours c factory cells before .runningFactory (.ok yes) before
  | changed {op : SlotOperation} : Honours c factory cells before (.change op) (.ok ()) before
  | refused {request : BootRequest} {failure : UpdateError} :
      Honours c factory cells before request (.error failure) before

/-- Requests that were served one after the other, from one selection to another. -/
inductive Selected (c : Session EmulatedSdm) (factory : UInt64) :
    Selection → List BootRecord → Selection → Prop where
  | nil (selection : Selection) : Selected c factory selection [] selection
  | cons {x : BootRecord} {records : List BootRecord} {last : Selection}
      (honours : Honours c factory x.found x.before x.request x.result x.after)
      (rest : Selected c factory x.after records last) : Selected c factory x.before (x :: records) last

/-! ### Between requests -/

/-- The device manager is at rest, and sees commands soon enough that a patient driver gets its answers past 900
strays; what it reports of its status tells which image is running. -/
structure Attentive (s : EmulatedSdm) : Prop where
  resting : s.Resting
  delay : s.consumeDelay ≤ 96
  words : 2 ≤ s.statusWords

theorem Attentive.ended {s t : EmulatedSdm} (h : Attentive s) (h' : Mailbox.Ended s t) : Attentive t :=
  ⟨h'.resting, h'.consumeDelay ▸ h.delay, h'.statusWords ▸ h.words⟩

theorem Attentive.injected {s : EmulatedSdm} (h : Attentive s) {strays : ℕ} (busy : ℕ)
    (hstrays : strays ≤ 900) : Attentive ((s.injectStrays strays).injectBusy busy) := by
  have hidle := h.resting.idle
  have hsound := hidle.sound
  refine ⟨⟨⟨⟨hsound.map, hsound.cin, hsound.cout, hsound.rin, hsound.rout, hsound.commandCells,
    hsound.responseCells⟩, hidle.empty, hidle.whole, hidle.urgent, hidle.stopped⟩, h.resting.quiet,
    h.resting.doorbells, h.resting.failures, ?_⟩, h.delay, h.words⟩
  have hdelay := h.delay
  show strays + s.consumeDelay + 4 ≤ 1000
  omega

/-- The state of a session between two requests. Of the pointer block nothing is asked. -/
structure Standing [FlashDevice φ] [KeepsCells φ] (c : Session EmulatedSdm) (factory : UInt64)
    (s : SessionState EmulatedSdm φ) : Prop where
  attentive : Attentive s.channel.registers
  orderly : Orderly c (KeepsCells.cells s.flash)
  listed : Factory c (KeepsCells.cells s.flash) factory

section Requests

variable [FlashDevice φ] [KeepsCells φ] {s : SessionState EmulatedSdm φ}

theorem Standing.ended (h : Standing c factory s) {sdm : EmulatedSdm} (table : PartitionTable)
    (hended : Mailbox.Ended s.channel.registers sdm) :
    Standing c factory ({ s with table }.withRegisters sdm) :=
  ⟨h.attentive.ended hended, h.orderly, h.listed⟩

theorem Standing.placeOf? (h : Standing c factory s)
    (ht : c.storedTable? (KeepsCells.cells s.flash) = some t) :
    placeOf? t c.layout.factoryName = some factory := by
  obtain ⟨e, he, -, hnamed, rfl⟩ := h.listed t ht
  have hnames := (h.orderly t ht).names
  unfold Session.placeOf?
  rw [PartitionTable.find?_isNamed hnames he (PartitionEntry.isNamed_iff.mp hnamed)]
  rfl

/-- The request is served, and honoured. -/
def Serves (c : Session EmulatedSdm) (factory : UInt64) (s : SessionState EmulatedSdm φ)
    (request : BootRequest) : Prop :=
  ∃ r s', Ends (c.boot request) s r s' ∧ Standing c factory s' ∧
    Honours c factory (KeepsCells.cells s.flash) s.channel.registers.selection request r
      s'.channel.registers.selection

/-- A program of the mailbox that selects, whatever partition table the session holds. -/
theorem Standing.selects (h : Standing c factory s) (table : PartitionTable)
    {x : MailboxM EmulatedSdm Unit} {f : Selection → Selection}
    {P : Except UpdateError Unit → Selection → Prop}
    (hx : ∃ r sdm, Ends x s.channel.registers r sdm ∧ Mailbox.Ended s.channel.registers sdm ∧
      Mailbox.Selects f s.channel.registers r sdm)
    (accepted : P (.ok ()) (f s.channel.registers.selection))
    (refused : ∀ failure, P (.error failure) s.channel.registers.selection) :
    ∃ r s', Ends (onMailbox x) { s with table } r s' ∧ Standing c factory s' ∧
      P r s'.channel.registers.selection := by
  obtain ⟨r, sdm, hends, hended, hselects⟩ := hx
  refine ⟨_, _, ends_onMailbox (s := { s with table }) hends, h.ended table hended, ?_⟩
  show P _ sdm.selection
  cases hselects with
  | accepted hselection =>
    rw [hselection]
    exact accepted
  | refused hselection =>
    rw [hselection]
    exact refused _

section Mailbox

variable (hmailbox : c.mailbox = Mailbox.host {}) (h : Standing c factory s)
include hmailbox h

theorem serves_update (offset : UInt64) : Serves c factory s (.update offset) := by
  have hselects := h.selects s.table (Mailbox.requestUpdate_resting h.attentive.resting offset)
    (.updated : Honours c factory (KeepsCells.cells s.flash) _ (.update offset) _ _) fun _ => .refused
  rw [← hmailbox] at hselects
  exact hselects

theorem serves_reboot : Serves c factory s .reboot := by
  have hselects := h.selects s.table (Mailbox.reboot_resting h.attentive.resting)
    (.rebooted : Honours c factory (KeepsCells.cells s.flash) _ .reboot _ _) fun _ => .refused
  rw [← hmailbox] at hselects
  exact hselects

theorem serves_loadSlot (slot : ℕ) : Serves c factory s (.loadSlot slot) := by
  rcases c.loadTable_cases s with ⟨t, ht, hload⟩ | ⟨-, failure, hload⟩
  · have hload : Ends (discard c.loadTable) s (.ok ()) { s with table := t } := hload.discard_ok
    rcases mutableEntry_cases slot { s with table := t } with ⟨e, he, -, hopen⟩ | ⟨failure, hopen⟩
    · obtain ⟨r, s', hselect, hrest⟩ := h.selects t
        (Mailbox.requestUpdate_resting h.attentive.resting e.offset)
        (.loaded ht he : Honours c factory _ _ (.loadSlot slot) _ _) fun _ => .refused
      rw [← hmailbox] at hselect
      exact ⟨r, s', hload.bind (hopen.bind ((ends_log _ _).bind hselect)), hrest⟩
    · exact ⟨_, _, hload.bind hopen.bind_error, ⟨h.attentive, h.orderly, h.listed⟩, .refused⟩
  · exact ⟨_, s, (hload.discard_error).bind_error, h, .refused⟩

theorem serves_loadFactory : Serves c factory s .loadFactory := by
  rcases c.loadTable_cases s with ⟨t, ht, hload⟩ | ⟨-, failure, hload⟩
  · have hload : Ends (discard c.loadTable) s (.ok ()) { s with table := t } := hload.discard_ok
    have hplace := ends_partitionOffset? c.layout.factoryName { s with table := t }
    rw [h.placeOf? ht] at hplace
    obtain ⟨r, s', hselect, hrest⟩ := h.selects t
      (Mailbox.requestUpdate_resting h.attentive.resting factory)
      (.loadedFactory : Honours c factory (KeepsCells.cells s.flash) _ .loadFactory _ _) fun _ => .refused
    rw [← hmailbox] at hselect
    exact ⟨r, s', hload.bind <| hplace.bind <| (Ends.pure factory _).bind <|
      (ends_log _ _).bind hselect, hrest⟩
  · exact ⟨_, s, (hload.discard_error).bind_error, h, .refused⟩

theorem serves_runningFactory : Serves c factory s .runningFactory := by
  obtain ⟨r, sdm, hstatus, hended, hselection, hcurrent⟩ :=
    Mailbox.updateStatus_resting h.attentive.resting h.attentive.words
  rw [← hmailbox] at hstatus
  have hasked : Ends c.status s (r.mapError .ofMailbox) (s.withRegisters sdm) := ends_onMailbox hstatus
  have hstanding := h.ended s.table hended
  -- the status is asked first, and without it nothing is read off the flash
  cases r with
  | error failure =>
    refine ⟨_, _, hasked.bind_error, hstanding, ?_⟩
    show Honours _ _ _ _ _ _ sdm.selection
    rw [hselection]
    exact .refused
  | ok status =>
    have hcurrent := hcurrent status rfl
    rcases c.loadTable_cases (s.withRegisters sdm) with ⟨t, ht, hload⟩ | ⟨-, failure, hload⟩
    · have hload : Ends (discard c.loadTable) (s.withRegisters sdm) (.ok ())
          { s.withRegisters sdm with table := t } := hload.discard_ok
      have hplace := ends_partitionOffset? c.layout.factoryName { s.withRegisters sdm with table := t }
      rw [h.placeOf? ht] at hplace
      refine ⟨_, _, hasked.bind <| hload.bind <| hplace.bind <| (Ends.pure factory _).bind (Ends.pure _ _),
        h.ended t hended, ?_⟩
      show Honours _ _ _ _ _ _ sdm.selection
      rw [hselection]
      refine .answered ?_
      rw [beq_iff_eq, hcurrent]
      exact eq_comm
    · refine ⟨_, _, hasked.bind (hload.discard_error).bind_error, hstanding, ?_⟩
      show Honours _ _ _ _ _ _ sdm.selection
      rw [hselection]
      exact .refused

end Mailbox

/-- Slots come and go, but the device manager is not asked for anything, and the factory image stays. -/
theorem serves_change (hc : Compact c) (h : Standing c factory s) (op : SlotOperation) :
    Serves c factory s (.change op) := by
  obtain ⟨changes, r, t, b, hperf, hplan⟩ := perform_follows c s op
  obtain ⟨front, r', s', hfront, hends, hcells, -⟩ := hperf.front
  obtain ⟨r₂, s₂, hends₂, -, hchannel⟩ := hperf.ends
  obtain ⟨rfl, rfl⟩ := hends.unique hends₂
  obtain ⟨horderly, hstored⟩ := hplan.orderly hc h.orderly hfront
  rw [← hcells] at horderly hstored
  refine ⟨r', s', hends, ⟨hchannel ▸ h.attentive, horderly, fun t' ht' => ?_⟩, ?_⟩
  · -- only slots that may be changed are removed
    obtain ⟨t₀, ht₀, hsucceeds⟩ := hstored t' ht'
    obtain ⟨e, he, hprotected, hrest⟩ := h.listed t₀ ht₀
    have hkept := hsucceeds.kept fun f hf => by
      obtain ⟨slot, -, hopen⟩ := Option.bind_eq_some_iff.mp hf
      exact (of_openSlot? ht₀ hopen).2
    exact ⟨e, hkept e he hprotected, hprotected, hrest⟩
  · rw [hchannel]
    cases r' with
    | ok _ => exact .changed
    | error failure => exact .refused

theorem serves_boot (hmailbox : c.mailbox = Mailbox.host {}) (hc : Compact c) (h : Standing c factory s)
    (request : BootRequest) : Serves c factory s request := by
  cases request with
  | loadSlot slot => exact serves_loadSlot hmailbox h slot
  | loadFactory => exact serves_loadFactory hmailbox h
  | update offset => exact serves_update hmailbox h offset
  | reboot => exact serves_reboot hmailbox h
  | runningFactory => exact serves_runningFactory hmailbox h
  | change op => exact serves_change hc h op

theorem Standing.obstructed (h : Standing c factory s) {step : BootStep}
    (hstrays : step.strays ≤ 900) : Standing c factory (obstruct step s) :=
  ⟨h.attentive.injected step.busy hstrays, h.orderly, h.listed⟩

/-- Whatever is in the way of the answers and whatever the pointer block holds, what is selected follows the last
request that was accepted: a run of any requests ends, each request selects what it asks for if it succeeds and
nothing if it fails, and the factory image is said to be running exactly when it is. -/
theorem selection_follows (c : Session EmulatedSdm) (steps : List BootStep)
    (s : SessionState EmulatedSdm φ) (t : PartitionTable) (factory : UInt64)
    (hmailbox : c.mailbox = Mailbox.host {}) (hc : Compact c)
    (ht : c.storedTable? (KeepsCells.cells s.flash) = some t)
    (hd : Directory c (KeepsCells.cells s.flash).size t)
    (hfactory : Factory c (KeepsCells.cells s.flash) factory) (hsdm : Attentive s.channel.registers)
    (hstrays : ∀ step ∈ steps, step.strays ≤ 900) :
    ∃ records s', Returns (c.bootAll steps) s records s' ∧
      records.map BootRecord.request = steps.map BootStep.request ∧
      Selected c factory s.channel.registers.selection records s'.channel.registers.selection := by
  have horderly : Orderly c (KeepsCells.cells s.flash) := by
    intro t' ht'
    obtain rfl := Option.some.inj (ht.symm.trans ht')
    exact hd
  have hstanding : Standing c factory s := ⟨hsdm, horderly, hfactory⟩
  -- the induction on the steps has the standing alone: one request keeps that and not the table
  clear ht hd horderly hfactory hsdm
  induction steps generalizing s with
  | nil => exact ⟨[], s, Returns.pure _ s, rfl, .nil _⟩
  | cons step steps ih =>
    obtain ⟨hstep, hsteps⟩ := List.forall_mem_cons.mp hstrays
    obtain ⟨r, t, hends, ht, hhonours⟩ := serves_boot hmailbox hc (hstanding.obstructed hstep) step.request
    obtain ⟨records, s', hrun, hrequests, hselected⟩ := ih t hsteps ht
    let x : BootRecord := {
      request := step.request
      found := KeepsCells.cells s.flash
      before := s.channel.registers.selection
      result := r
      after := t.channel.registers.selection }
    refine ⟨x :: records, s', (Returns.modify _ s).bind <| (Returns.get _).bind <| Returns.bind hends <|
      (Returns.get t).bind <| hrun.bind (Returns.pure _ s'), ?_, ?_⟩
    · rw [List.map_cons, hrequests, List.map_cons]
    · exact .cons (x := x) hhonours hselected

end Requests

/-! ### The standard layout -/

def hostSession : Session EmulatedSdm where
  mailbox := Mailbox.host {}
  layout := {}
  tableOffsets := (0x100000, 0x108000)

/-- The session on a formatted device, with a device manager that has just been switched on. -/
def hostState : SessionState EmulatedSdm EmulatedFlash where
  channel := { registers := .fresh {} }
  flash := plainFlash

theorem cells_emulated (f : EmulatedFlash) : KeepsCells.cells f = f.cells := rfl

theorem flash_hostState : hostState.flash = plainFlash := rfl

theorem attentive_fresh : Attentive (.fresh {}) :=
  ⟨⟨⟨Mailbox.sound_fresh, rfl, rfl, rfl, rfl⟩, rfl, rfl, nofun, by decide⟩, by decide, by decide⟩

/-- The device stores the tables of the plan. -/
theorem stores_hosted : Stores hostSession plainFlash.cells FlashPlan.plain.table
    (some FlashPlan.plain.block) :=
  (stores_formatted ⟨rfl, rfl, rfl⟩ (reachable_plain _) standardSize_le_blank rfl).1

theorem stores_hostState : Stores hostSession (KeepsCells.cells hostState.flash) FlashPlan.plain.table
    (some FlashPlan.plain.block) := by
  rw [flash_hostState, cells_emulated]
  exact stores_hosted

theorem factory_hostState : Factory hostSession (KeepsCells.cells hostState.flash) 0x10000 := by
  intro t ht
  obtain rfl := Option.some.inj (stores_hostState.table.symm.trans ht)
  obtain ⟨-, hall⟩ := (reachable_plain _).sound le_rfl
  obtain ⟨e, he, hname, hoffset, -, hflags⟩ := hall ("FACTORY_IMAGE", 0x10000, 0xf0000) (by decide)
  refine ⟨e, he, ?_, PartitionEntry.isNamed_iff.mpr hname, hoffset⟩
  have hreserved : PartitionEntry.isProtected { flags := PartitionEntry.reservedFlag } = true := by decide
  rw [← hreserved]
  exact PartitionEntry.isProtected_congr hflags

/-- A pointer block in which the factory image comes first. -/
def pinningBlock : PointerBlock :=
  ((PointerBlock.empty 8).enable 0x10000).2

/-- The session on a device that has been told to boot the factory image first. -/
def pinnedState : SessionState EmulatedSdm EmulatedFlash where
  channel := { registers := .fresh {} }
  flash := { plainFlash with
    cells := afterAll (replaceChanges 0x110000 tableSize pinningBlock.encode) plainFlash.cells }

theorem cells_pinnedState : KeepsCells.cells pinnedState.flash =
    afterAll (replaceChanges 0x110000 tableSize pinningBlock.encode) plainFlash.cells := rfl

theorem fits_pinningBlock :
    ∀ change ∈ replaceChanges 0x110000 tableSize pinningBlock.encode, change.Fits plainFlash.cells := by
  intro change hm
  obtain ⟨-, hend⟩ := inside_replaceChanges pinningBlock.length_encode.le change hm
  have hroom : (0x110000 : UInt64).toNat + tableSize ≤ 0x140000 := by decide
  rw [← size_plainFlash] at hroom
  exact hend.trans hroom

theorem table_pinnedState : hostSession.storedTable? (KeepsCells.cells pinnedState.flash) =
    some FlashPlan.plain.table := by
  rw [cells_pinnedState, ← stores_hosted.table]
  refine storedTable?_congr (slice_afterAll_apart fits_pinningBlock ?_)
  exact replaceChanges_apart pinningBlock.length_encode.le (by decide)

/-- The factory image is protected, so that no well-formed device says so. -/
theorem block_pinnedState : hostSession.storedBlock? (KeepsCells.cells pinnedState.flash)
    FlashPlan.plain.table = some pinningBlock ∧ pinningBlock.priorities = [0x10000] := by
  have hverifies : pinningBlock.verifies = true := by decide +kernel
  have hplace : placeOf? FlashPlan.plain.table hostSession.layout.blockName = some 0x110000 :=
    (reachable_plain 0x140000).places.2.1
  refine ⟨storedBlock?_of_encode hplace hverifies ?_, by decide +kernel⟩
  have hheld := slice_replaceChanges [] (by simpa using fits_pinningBlock) (by simp)
  rwa [List.append_nil, pinningBlock.length_encode] at hheld

theorem directory_pinnedState :
    Directory hostSession (KeepsCells.cells pinnedState.flash).size FlashPlan.plain.table := by
  rw [cells_pinnedState, size_afterAll fits_pinningBlock]
  exact stores_hosted.directory

theorem factory_pinnedState : Factory hostSession (KeepsCells.cells pinnedState.flash) 0x10000 := by
  intro t ht
  obtain rfl := Option.some.inj (table_pinnedState.symm.trans ht)
  exact factory_hostState _ stores_hostState.table

/-- With a pointer block that no well-formed device has, the factory image is asked for past 900 strays while the
device manager is busy, and booted. -/
theorem selection_follows_factory :
    hostSession.storedBlock? (KeepsCells.cells pinnedState.flash) FlashPlan.plain.table =
        some pinningBlock ∧ pinningBlock.priorities = [0x10000] ∧
      ∃ records s', Returns (hostSession.bootAll [{ request := .loadFactory, strays := 900, busy := 1 },
          { request := .reboot, strays := 2 }, { request := .runningFactory, busy := 7 }]) pinnedState
          records s' ∧
        records.map BootRecord.request = [.loadFactory, .reboot, .runningFactory] ∧
        Selected hostSession 0x10000 pinnedState.channel.registers.selection records
          s'.channel.registers.selection := by
  obtain ⟨hblock, hpointers⟩ := block_pinnedState
  refine ⟨hblock, hpointers, ?_⟩
  exact selection_follows hostSession
    [{ request := .loadFactory, strays := 900, busy := 1 }, { request := .reboot, strays := 2 },
      { request := .runningFactory, busy := 7 }]
    pinnedState FlashPlan.plain.table 0x10000 rfl ⟨rfl, rfl⟩ table_pinnedState directory_pinnedState
    factory_pinnedState attentive_fresh (by simp)

end Session

end RemoteUpdate
