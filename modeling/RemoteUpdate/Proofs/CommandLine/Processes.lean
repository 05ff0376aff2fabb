import RemoteUpdate.Proofs.CommandLine.InStep
import RemoteUpdate.Proofs.Session.BootSelection

/-!
# Processes and sessions

A program that is started anew for every command has a new device manager each time, opens a new session, and
reads its device from a file. To whoever reads what it prints it is one session that goes on: all that commands
leave for each other is in the cells of the device, and those are in the file.
-/

namespace RemoteUpdate.CommandLine

open Session (hostSession)

/-! ### One process for each command, and one session -/

def runAll : List Invocation → StateT FileStore LogM (List (Except String String))
  | [] => pure []
  | i :: rest => do
    let result ← run i
    let others ← runAll rest
    return result :: others

def answerAll (c : Session EmulatedSdm) : List Request → StateT Bench LogM (List (Except String String))
  | [] => pure []
  | request :: rest => do
    let result ← (answer c request).run
    let others ← answerAll c rest
    return result :: others

def start : RunM (Session EmulatedSdm) := do
  format maxPointers
  openSession

def serve (requests : List Request) : RunM (List (Except String String)) := do
  answerAll (← start) requests

variable {p : Setting} {c : Session EmulatedSdm} {s t : Bench} {store : FileStore} {i : Invocation}

/-! ### Opening a session -/

theorem ends_start {channel : Channel EmulatedSdm} (h : channel.registers.AsNew) :
    ∃ channel' : Channel EmulatedSdm,
      Ends (Session.start (Mailbox.host {}) {}) channel (.ok hostSession) channel' ∧
        channel'.registers.AsNew := by
  obtain ⟨registers, hends, hsdm⟩ := Mailbox.always_subpartitionTable _ h
  have hask : Returns (Channel.onRegisters (Mailbox.host {}).subpartitionTable.run) channel _
      { channel with registers } := Returns.focus hends
  refine ⟨{ channel with registers }, ?_, hsdm⟩
  exact Ends.bind (Returns.bind hask (Returns.pure _ _)) fun log => ⟨log.push _, rfl⟩

/-- The device manager is restarted, and tells where the tables are. -/
theorem ends_openSession (h : s.channel.registers = .fresh {}) : ∃ channel : Channel EmulatedSdm,
    Ends openSession s (.ok hostSession) { s with channel } ∧ channel.registers.AsNew := by
  have onChannel {α : Type} {x : StateT (Channel EmulatedSdm) LogM α} {a : α} {s : Bench}
      {channel : Channel EmulatedSdm} (hx : Returns x s.channel a channel) :
      Returns (focus SessionState.channel (fun channel b => { b with channel }) x) s a { s with channel } :=
    Returns.focus hx
  have hinit : Ends (Mailbox.host {}).init s.channel.registers (.ok ()) (.restarted (.fresh {})) := by
    rw [h]
    exact Mailbox.ends_init Mailbox.sound_fresh ⟨rfl, rfl, rfl, nofun, rfl, rfl⟩ (by decide)
  have hchannel : Returns (Channel.onRegisters (Mailbox.host {}).init.run) s.channel (.ok ())
      { s.channel with registers := .restarted (.fresh {}) } := Returns.focus hinit
  obtain ⟨channel, hstart, hsdm⟩ : ∃ channel : Channel EmulatedSdm, Ends (Session.start (Mailbox.host {}) {})
      { s.channel with registers := .restarted (.fresh {}) } (.ok hostSession) channel ∧
        channel.registers.AsNew := ends_start EmulatedSdm.asNew_restarted
  have hstarted := onChannel (s := { s with channel := _ }) hstart
  exact ⟨channel, Ends.bind (Returns.bind (onChannel hchannel) (Returns.pure _ _))
    (Returns.bind hstarted (Returns.pure _ _)), hsdm⟩

/-! ### One process -/

/-- The path leads to the file of the device, which is missing at first but may be made. -/
structure Setting.Vacant (p : Setting) (path : String) : Prop where
  leads : p.files.locateNew path = .ok p.location
  missing : p.files.node p.location = .missing

theorem Setting.Vacant.hasPath {path : String} (h : p.Vacant path) : p.files.hasPath path = false := by
  unfold FileStore.hasPath
  rw [(FileStore.locateNew_eq_ok h.leads).1]
  simp only
  rw [h.missing]

/-- What processes have left in their files is what the session has left on its bench. -/
structure Follows (p : Setting) (store : FileStore) (t : Bench) : Prop where
  manager : t.channel.registers.AsNew
  memory : t.flash.location = none
  works : t.flash.flash.failing = false
  size : t.flash.flash.cells.size = p.capacity
  store : store.Adds p.location t.flash.flash.cells t.flash.store
  tree : p.files.SameTree t.flash.store

theorem InStep.follows (h : InStep p s t) : Follows p s.flash.store t :=
  ⟨h.managers.2, h.device.memory, h.device.works.2, h.size, h.device.store, h.tree⟩

theorem returns_run {flash : FileFlash} {r : Except String String}
    (hopen : FileFlash.open? store i.flash i.flashSize = .ok flash)
    (h : Ends (runOn i (!store.hasPath i.flash)) (Bench.switchedOn flash) r s) :
    Returns (run i) store r s.flash.store := by
  intro log
  obtain ⟨log', hrun⟩ := h log
  refine ⟨log', ?_⟩
  unfold run
  rw [hopen]
  show (((runOn i (!store.hasPath i.flash)).run (Bench.switchedOn flash)) log).bind _ = _
  rw [hrun]
  rfl

theorem agrees_answer (hmailbox : c.mailbox = Mailbox.host {}) {request : Request} (h : p.Spares request) :
    Agrees p (answer c request) :=
  (Agrees.execute hmailbox h).bind fun _ => .pure _

/-- A process that finds the device of the session goes on where the session is. -/
theorem Follows.run (h : Follows p store t) (hpath : p.files.locateNew i.flash = .ok p.location)
    (hsize : i.flashSize = p.capacity) (hspares : p.Spares i.request) : ∃ r r' store' t',
    Returns (run i) store r store' ∧ Ends (answer hostSession i.request) t r' t' ∧
      r.toOption = r'.toOption ∧ Follows p store' t' := by
  have hpath' : store.locateNew i.flash = .ok p.location :=
    (FileStore.locateNew_eq_ok hpath).2 (h.tree.trans h.store.tree.symm)
  obtain ⟨flash, hopen, hmirrors⟩ := FileFlash.open_file hpath' h.store h.memory h.works
  rw [h.size, ← hsize] at hopen
  obtain ⟨channel, hsession, hsdm⟩ := ends_openSession (s := Bench.switchedOn flash) rfl
  obtain ⟨r, r', s', t', hs, ht, hsame, hstep⟩ := agrees_answer (c := hostSession) rfl hspares
    { Bench.switchedOn flash with channel } t ⟨⟨hsdm, h.manager⟩, hmirrors, h.size, h.tree⟩
  refine ⟨r, r', _, t', returns_run hopen ?_, ht, hsame, hstep.follows⟩
  have hthere : store.hasPath i.flash = true := by
    unfold FileStore.hasPath
    rw [(FileStore.locateNew_eq_ok hpath').1]
    simp only
    rw [h.store.file]
  rw [hthere]
  exact hsession.bind hs

/-- The bench of the session, before anything is done. -/
def Setting.bench (p : Setting) : Bench :=
  .switchedOn (.inMemory p.files p.capacity)

/-- The first process formats its device and opens a session, as it is done on the bench of the session. -/
theorem Setting.Vacant.start {path : String} (h : p.Vacant path) (hlarge : FlashPlan.standardSize ≤ p.capacity) :
    ∃ flash s t, FileFlash.open? p.files path p.capacity = .ok flash ∧
      Ends start (Bench.switchedOn flash) (.ok hostSession) s ∧ Ends start p.bench (.ok hostSession) t ∧
      InStep p s t ∧ t.flash.store = p.files := by
  obtain ⟨flash, hopen, hmirrors⟩ := FileFlash.open_missing h.leads h.missing p.capacity
  have hcells : p.bench.flash.flash.cells.size = p.capacity := Cells.size_filled _ _
  have hslots : ¬ (maxPointers = 0 ∨ maxPointers < maxPointers) := by decide
  obtain ⟨r, f, g, hplay, hok⟩ := hmirrors.playList (slotChanges maxPointers)
  obtain rfl : r = .ok () := hok (FlashPlan.fits_formatChanges _ (hcells.symm ▸ hlarge))
  have hformat := ends_format hslots (.switchedOn flash)
  have hformat' := ends_format hslots p.bench
  rw [show (Bench.switchedOn flash).flash = flash from rfl, hplay.first] at hformat
  rw [show p.bench.flash = .inMemory p.files p.capacity from rfl, hplay.second] at hformat'
  obtain ⟨channel, hsession, hsdm⟩ := ends_openSession (s := { Bench.switchedOn flash with flash := f }) rfl
  obtain ⟨channel', hsession', hsdm'⟩ := ends_openSession (s := { p.bench with flash := g }) rfl
  exact ⟨flash, _, _, hopen, hformat.bind hsession, hformat'.bind hsession',
    ⟨⟨hsdm, hsdm'⟩, hplay.mirrors, hplay.size.trans hcells, hplay.store ▸ .refl _⟩, hplay.store⟩

/-- A process that finds no file answers as the session does that has just been opened. -/
theorem InStep.run {flash : FileFlash} (h : InStep p s t)
    (hstart : Ends start (Bench.switchedOn flash) (.ok hostSession) s)
    (hopen : FileFlash.open? store i.flash i.flashSize = .ok flash) (hfresh : store.hasPath i.flash = false)
    (hspares : p.Spares i.request) : ∃ r r' store' t',
    Returns (run i) store r store' ∧ Ends (answer hostSession i.request) t r' t' ∧
      r.toOption = r'.toOption ∧ Follows p store' t' := by
  obtain ⟨r, r', s', t', hs, ht, hsame, hstep⟩ := agrees_answer (c := hostSession) rfl hspares s t h
  refine ⟨r, r', _, t', returns_run hopen ?_, ht, hsame, hstep.follows⟩
  have hall := hstart.bind (f := fun c => answer c i.request) hs
  unfold start at hall
  rw [bind_assoc] at hall
  rw [hfresh]
  exact (Ends.lift (Returns.emit _ _)).bind hall

/-! ### All of them -/

theorem Follows.runAll {invocations : List Invocation} (h : Follows p store t)
    (hsame : ∀ i ∈ invocations, p.files.locateNew i.flash = .ok p.location ∧ i.flashSize = p.capacity)
    (hspares : ∀ i ∈ invocations, p.Spares i.request) : ∃ apart store' together t',
    Returns (runAll invocations) store apart store' ∧
      Returns (answerAll hostSession (invocations.map Invocation.request)) t together t' ∧
      apart.map Except.toOption = together.map Except.toOption ∧ Follows p store' t' := by
  induction invocations generalizing store t with
  | nil => exact ⟨[], store, [], t, Returns.pure _ store, Returns.pure _ t, rfl, h⟩
  | cons i rest ih =>
    obtain ⟨⟨hpath, hsize⟩, hrest⟩ := List.forall_mem_cons.mp hsame
    obtain ⟨hspared, hspares⟩ := List.forall_mem_cons.mp hspares
    obtain ⟨r, r', store₁, t₁, hrun, hanswer, hr, h₁⟩ := h.run hpath hsize hspared
    obtain ⟨apart, store', together, t', hruns, hanswers, hrs, h'⟩ := ih h₁ hrest hspares
    refine ⟨r :: apart, store', r' :: together, t', hrun.bind (hruns.bind (Returns.pure _ _)),
      Returns.bind hanswer (hanswers.bind (Returns.pure _ _)), ?_, h'⟩
    rw [List.map_cons, List.map_cons, hr, hrs]

/-- One process for each command is as good as one session for all of them. Whatever is asked for in processes
that share the file of a device, missing at first, and in a session on a formatted device in memory: they come to
an end, each request prints the same or fails in both, and in the end the file holds what the device in memory
holds, and all other files are the same. Both work with the same images and saved tables; the file of the device
is not one of those. -/
theorem processes_answer_as_session (p : Setting) (path : String) (invocations : List Invocation)
    (hvacant : p.Vacant path) (hlarge : 0x120000 ≤ p.capacity)
    (hsame : ∀ i ∈ invocations, i.flash = path ∧ i.flashSize = p.capacity)
    (hspares : ∀ i ∈ invocations, p.Spares i.request) : ∃ apart store together t,
    Returns (runAll invocations) p.files apart store ∧
      Ends (serve (invocations.map Invocation.request)) p.bench (.ok together) t ∧
      apart.map Except.toOption = together.map Except.toOption ∧
      (invocations ≠ [] → store.node p.location = .file t.flash.flash.cells) ∧
      ∀ l ≠ p.location, store.node l = t.flash.store.node l := by
  obtain ⟨flash, s, t, hopen, hstart, hstart', hstep, hstore⟩ := hvacant.start hlarge
  -- without an invocation no process makes the file, so only the others are compared
  cases invocations with
  | nil =>
    refine ⟨[], p.files, [], t, Returns.pure _ _, hstart'.bind (Ends.lift (Returns.pure _ _)), rfl,
      fun hne => absurd rfl hne, fun l _ => ?_⟩
    rw [hstore]
  | cons i rest =>
    obtain ⟨⟨rfl, hsize⟩, hrest⟩ := List.forall_mem_cons.mp hsame
    obtain ⟨hspared, hspares⟩ := List.forall_mem_cons.mp hspares
    obtain ⟨r, r', store₁, t₁, hrun, hanswer, hr, h₁⟩ :=
      hstep.run hstart (hsize.symm ▸ hopen) hvacant.hasPath hspared
    have hrest' : ∀ j ∈ rest, p.files.locateNew j.flash = .ok p.location ∧ j.flashSize = p.capacity :=
      fun j hj => ⟨(hrest j hj).1 ▸ hvacant.leads, (hrest j hj).2⟩
    obtain ⟨apart, store', together, t', hruns, hanswers, hrs, h'⟩ := h₁.runAll hrest' hspares
    have hall : Returns (answerAll hostSession ((i :: rest).map Invocation.request)) t (r' :: together) t' :=
      Returns.bind hanswer (hanswers.bind (Returns.pure _ _))
    refine ⟨r :: apart, store', r' :: together, t', hrun.bind (hruns.bind (Returns.pure _ _)),
      hstart'.bind (Ends.lift hall), ?_, fun _ => h'.store.file, h'.store.others⟩
    rw [List.map_cons, List.map_cons, hr, hrs]

/-- A device in a directory without other files. -/
def plainSetting : Setting where
  files := {}
  location := ["flash.bin"]
  capacity := 0x140000

/-- A slot is removed, and comes back with the table that was saved before. -/
def savedAndRestored : List Invocation :=
  [Request.createSlot "APP" 0x120000 0x1000, .saveTable "tables.bin", .deleteSlot 6, .restoreTable "tables.bin",
    .enableSlot 6].map fun request => { flash := "flash.bin", flashSize := 0x140000, request }

theorem processes_answer_as_session_restored : ∃ apart store together t,
    Returns (runAll savedAndRestored) plainSetting.files apart store ∧
      Ends (serve (savedAndRestored.map Invocation.request)) plainSetting.bench (.ok together) t ∧
      apart.map Except.toOption = together.map Except.toOption ∧
      (savedAndRestored ≠ [] → store.node ["flash.bin"] = .file t.flash.flash.cells) ∧
      ∀ l ≠ ["flash.bin"], store.node l = t.flash.store.node l := by
  refine processes_answer_as_session plainSetting "flash.bin" savedAndRestored ⟨rfl, rfl⟩ (by decide) ?_ ?_
  · simp [savedAndRestored, plainSetting]
  · have htables : plainSetting.files.locate "tables.bin" ≠ .ok plainSetting.location := by
      show Except.ok ["tables.bin"] ≠ Except.ok ["flash.bin"]
      decide
    simp [savedAndRestored, Setting.Spares, Request.file?, htables]

end RemoteUpdate.CommandLine
