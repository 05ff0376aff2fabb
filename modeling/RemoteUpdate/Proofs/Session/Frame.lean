import RemoteUpdate.Proofs.Session.Footprint
import RemoteUpdate.Proofs.Session.Looking

/-!
# What a run leaves alone

A session is asked to change slots, to check them against images and to look at them, on a device where any
call may fail. Whatever it is asked, bytes outside the tables and outside the slots that are erased or
programmed stay, protected entries stay, and an image stays in its slot, which is found at its offset.
-/

namespace RemoteUpdate

variable {ρ φ : Type}

/-- What a session is asked about its slots. -/
inductive SlotRequest where
  | change (op : SlotOperation)
  | verify (kind : Session.ImageKind) (slot : ℕ) (image : List UInt8)
  | count
  | byName (name : String)
  | info (slot : ℕ)
  | size (slot : ℕ)
  | priority (slot : ℕ)

/-- The operation of a request that changes slots. -/
def SlotRequest.operation? : SlotRequest → Option SlotOperation
  | change op => some op
  | _ => none

/-- A request that was served: what the device held before, and how it ended. -/
structure Served where
  request : SlotRequest
  found : ByteArray
  result : Except UpdateError Unit

namespace Session

variable {c : Session ρ} {s : SessionState ρ φ} [FlashDevice φ]

/-! ### Requests -/

def serve (c : Session ρ) : SlotRequest → SessionM ρ φ Unit
  | .change op => c.perform op
  | .verify kind slot image => c.verifySlot kind slot image
  | .count => discard c.slotCount
  | .byName name => discard (c.slotByName name)
  | .info slot => discard (c.slotInfo slot)
  | .size slot => discard (c.slotSize slot)
  | .priority slot => discard (c.slotPriority slot)

variable [KeepsCells φ]

def serveAll (c : Session ρ) : List SlotRequest → StateT (SessionState ρ φ) LogM (List Served)
  | [] => pure []
  | request :: rest => do
    let found := KeepsCells.cells (← get).flash
    let result ← (c.serve request).run
    let others ← c.serveAll rest
    return { request, found, result } :: others

theorem serveAll_cons (request : SlotRequest) {requests : List SlotRequest} {served : List Served}
    {r : Except UpdateError Unit} {s₁ s' : SessionState ρ φ} (h : Ends (c.serve request) s r s₁)
    (h' : Returns (c.serveAll requests) s₁ served s') : Returns (c.serveAll (request :: requests)) s
      ({ request, found := KeepsCells.cells s.flash, result := r } :: served) s' :=
  (Returns.get s).bind (Returns.bind h (h'.bind (Returns.pure _ _)))

/-- A request that changes no slots leaves the device alone. -/
theorem serve_looks (c : Session ρ) {request : SlotRequest} (h : request.operation? = none) :
    Looks (c.serve request : SessionM ρ φ Unit) := by
  cases request with
  | change op => cases h
  | verify kind slot image => exact Looks.verifySlot c kind slot image
  | count => exact ((Looks.loadTable c).bind fun t => Looks.pure _).discard
  | byName name => exact ((Looks.loadTable c).bind fun t => Looks.found _).discard
  | info slot =>
    exact ((Looks.load c).bind fun _ => (Looks.slotEntry slot).bind fun e =>
      Looks.get.bind fun _ => Looks.pure _).discard
  | size slot =>
    exact ((Looks.loadTable c).discard.bind fun _ => (Looks.slotEntry slot).bind fun e =>
      Looks.pure _).discard
  | priority slot =>
    exact ((Looks.load c).bind fun _ => (Looks.slotEntry slot).bind fun e =>
      Looks.get.bind fun _ => Looks.pure _).discard

/-! ### One request -/

section Steps

variable {cells next : ByteArray} {t t' : PartitionTable} {e : PartitionEntry} {x : Served}
  {op : SlotOperation} {changes front : List FlashChange} {r r' : Except UpdateError Unit}
  {size a n : ℕ} {offset : UInt64} {image : List UInt8}

/-- The slot whose contents a request is to replace, by the table that it finds. -/
def target? (c : Session ρ) (x : Served) : Option PartitionEntry :=
  (x.request.operation?.bind SlotOperation.rewritten?).bind (c.openSlot? x.found)

/-- The slot that a request is to remove, by the table that it finds. -/
def removed? (c : Session ρ) (x : Served) : Option PartitionEntry :=
  (x.request.operation?.bind SlotOperation.removed?).bind (c.openSlot? x.found)

/-- The range is outside the windows of all tables. -/
def Outside (c : Session ρ) (cells : ByteArray) (a n : ℕ) : Prop :=
  ∀ t, c.storedTable? cells = some t →
    ∀ place ∈ c.tablePlaces t, Cells.Apart place.toNat tableSize a n

/-- The stored table lists a slot that may be changed at the offset, and the slot holds the image. -/
def Holds (c : Session ρ) (cells : ByteArray) (offset : UInt64) (image : List UInt8) : Prop :=
  ∀ t, c.storedTable? cells = some t → ∃ e ∈ t.listed, e.offset = offset ∧ e.isProtected = false ∧
    image.length ≤ e.length.toNat ∧ Cells.slice cells offset.toNat image.length = image

/-- What serving a request does to cells. -/
structure Step (c : Session ρ) (x : Served) (next : ByteArray) : Prop where
  guarded : Guarded c next
  size : next.size = x.found.size
  stored : ∀ t', c.storedTable? next = some t' →
    ∃ t, c.storedTable? x.found = some t ∧ Succeeds t t' (c.removed? x)
  leaves : ∀ a n, Outside c x.found a n →
    (∀ e, c.target? x = some e → Cells.Apart e.offset.toNat e.length.toNat a n) →
    Cells.slice next a n = Cells.slice x.found a n
  programmed : ∀ kind slot image, x.request = .change (.program kind slot image) →
    x.result = .ok () → ∃ e, c.target? x = some e ∧ Holds c next e.offset image

theorem target?_program (kind : ImageKind) (slot : ℕ) (image : List UInt8) (cells : ByteArray)
    (r : Except UpdateError Unit) :
    c.target? { request := .change (.program kind slot image), found := cells, result := r } =
      c.openSlot? cells slot := by
  rw [target?, SlotRequest.operation?, Option.bind_some, SlotOperation.rewritten?, Option.bind_some]

theorem of_bind_openSlot? {slot : Option ℕ} (ht : c.storedTable? cells = some t)
    (h : slot.bind (c.openSlot? cells) = some e) : e ∈ t.listed ∧ e.isProtected = false := by
  obtain ⟨slot, -, he⟩ := Option.bind_eq_some_iff.mp h
  exact of_openSlot? ht he

theorem Step.still (hg : Guarded c x.found) (h : x.request.operation? = none) : Step c x x.found where
  guarded := hg
  size := rfl
  stored t ht := ⟨t, ht, .refl t _⟩
  leaves _ _ _ _ := rfl
  programmed kind slot image hx _ := by
    rw [hx] at h
    cases h

/-- An image that is written to a slot stays there when the pointer block is saved. -/
theorem slice_written {side rest : List FlashChange} {room : ℕ} (hd : Directory c size t)
    (he : e ∈ t.listed) (hu : e.isProtected = false) (hle : image.length ≤ e.length.toNat)
    (hfit : ∀ change ∈ side ++ (replaceChanges e.offset room image ++ rest), change.Fits cells)
    (hrest : ∀ change ∈ rest, Beside c t none change) :
    Cells.slice (afterAll (side ++ (replaceChanges e.offset room image ++ rest)) cells)
      e.offset.toNat image.length = image := by
  obtain ⟨hside, hfit⟩ := List.forall_mem_append.mp hfit
  rw [afterAll_append]
  refine slice_replaceChanges _ (fun change hm => (hfit change hm).afterAll hside) fun change hm => ?_
  refine (hrest change hm).apart (fun place hp => ?_) nofun
  exact (hd.window_apart (List.mem_cons_of_mem _ hp) he hu).mono hle

/-- A slot that has been programmed holds the image. -/
theorem Plans.programs {kind : ImageKind} {slot : ℕ} (hc : Compact c)
    (h : Plans c cells (.program kind slot image) changes r) (hr : r = .ok ()) (hg : Guarded c cells) :
    ∃ e, c.openSlot? cells slot = some e ∧ Holds c (afterAll changes cells) e.offset image := by
  have hfits := (h.careful hc hg).1.fits
  have hplanned := h.footprint hc hg.orderly
  simp only [SlotOperation.rewritten?, SlotOperation.removed?, Option.bind_some, Option.bind_none] at hplanned
  cases h with
  | refused => cases hr
  | @programmed _ _ _ t b e opened nonempty hle =>
    refine ⟨e, opened.openSlot?, fun t' ht' => ?_⟩
    have he := List.mem_of_getElem? opened.entry
    have hd := (hg t opened.table).1
    cases hl : FlashPartition.ofEntry cells.size e with
    | error fault =>
      rw [contentResult, hl] at hr
      cases hr
    | ok p =>
      obtain ⟨hbase, -, -⟩ := ofEntry_eq_ok hl
      have hnil : ∀ side rest : List FlashChange, side ++ ([.erase p.base p.length,
          .write p.base image] ++ rest) ≠ [] := by simp
      rw [contentChanges, hl] at hfits hplanned ht' ⊢
      obtain ⟨t₁, ht₁, hfoot⟩ := hplanned.resolve_left (hnil _ _)
      obtain rfl := Option.some.inj (opened.table.symm.trans ht₁)
      -- the table found afterwards may be another one, but it still has an entry in that place
      obtain ⟨-, hsucceeds⟩ := hfoot.stored hd (fun f hf => of_openSlot? opened.table hf) opened.table
        List.prefix_rfl ht'
      obtain ⟨f, hf, ho, hlen, hflags, -⟩ := hsucceeds e he (Option.some_ne_none e).symm
      refine ⟨f, hf, ho, ?_, hlen ▸ hle, ?_⟩
      · rw [PartitionEntry.isProtected_congr hflags, opened.mutable]
      · dsimp only at hfits ⊢
        rw [hbase] at hfits ⊢
        refine slice_written hd he opened.mutable hle hfits ?_
        split
        · exact fun _ hm => absurd hm List.not_mem_nil
        · exact beside_enableChanges hc t _ _ none

/-- The first changes of a plan, all of them if the request succeeds. -/
theorem Plans.step (hc : Compact c) (h : Plans c cells op changes r) (hg : Guarded c cells)
    (hfront : front <+: changes) (hok : r' = .ok () → front = changes ∧ r = .ok ()) :
    Step c { request := .change op, found := cells, result := r' } (afterAll front cells) := by
  have hcare := ((h.careful hc hg).1).front hfront
  have hplanned := h.footprint hc hg.orderly
  refine ⟨hcare.guarded_after, hcare.size_after, fun t' ht' => ?_, fun a n hout htarget => ?_,
    fun kind slot image hx hr => ?_⟩
  · exact (h.orderly hc hg.orderly hfront).2 t' ht'
  · refine slice_afterAll_apart hcare.fits fun change hm => ?_
    rcases hplanned with rfl | ⟨t, ht, hfoot⟩
    · exact absurd (hfront.subset hm) List.not_mem_nil
    · exact hfoot.apart (hout t ht) htarget change (hfront.subset hm)
  · obtain rfl : op = .program kind slot image := SlotRequest.change.inj hx
    obtain ⟨rfl, hplan⟩ := hok hr
    rw [target?_program]
    exact h.programs hc hplan hg

/-- A request ends, and takes a step. -/
theorem serve_steps (hc : Compact c) (request : SlotRequest) (hg : Guarded c (KeepsCells.cells s.flash)) :
    ∃ r s', Ends (c.serve request) s r s' ∧
      Step c { request, found := KeepsCells.cells s.flash, result := r } (KeepsCells.cells s'.flash) := by
  cases hop : request.operation? with
  | none =>
    obtain ⟨r, s', hends, hflash⟩ := serve_looks c hop s
    refine ⟨r, s', hends, ?_⟩
    rw [hflash]
    exact .still hg hop
  | some op =>
    obtain rfl : request = .change op := by
      cases request <;> cases hop
      rfl
    obtain ⟨changes, r, t, b, hperf, hplan⟩ := perform_follows c s op
    obtain ⟨front, r', s', hfront, hends, hcells, hok⟩ := hperf.front
    refine ⟨r', s', hends, ?_⟩
    rw [hcells]
    exact hplan.step hc hg hfront (hok ())

/-! ### What a step keeps -/

theorem Step.outside (h : Step c x next) (hg : Guarded c x.found) (ho : Outside c x.found a n) :
    Outside c next a n := by
  intro t' ht' place hp
  obtain ⟨t, ht, hsucceeds⟩ := h.stored t' ht'
  have hkept := hsucceeds.kept fun e he => (of_bind_openSlot? ht he).2
  have hl : Listing x.found.size t'.listed := h.size ▸ (h.guarded t' ht').1.toListing
  have hplaces : c.tablePlaces t' = c.tablePlaces t := by
    rw [tablePlaces, copyPlaces, (hg t ht).1.blockPlaces_keep hl hkept]
    rfl
  exact ho t ht place (hplaces ▸ hp)

theorem Step.holds (h : Step c x next) (hg : Guarded c x.found) (hh : Holds c x.found offset image)
    (halone : ∀ e, c.target? x = some e ∨ c.removed? x = some e → e.offset ≠ offset) :
    Holds c next offset image := by
  intro t' ht'
  obtain ⟨t, ht, hsucceeds⟩ := h.stored t' ht'
  obtain ⟨e, he, rfl, hu, hle, hslice⟩ := hh t ht
  obtain ⟨f, hf, ho, hlen, hflags, -⟩ := hsucceeds e he fun hr => halone e (.inr hr) rfl
  have hd := (hg t ht).1
  refine ⟨f, hf, ho, ?_, hlen ▸ hle, (h.leaves _ _ ?_ fun g hgt => ?_).trans hslice⟩
  · rw [PartitionEntry.isProtected_congr hflags, hu]
  · intro t₁ ht₁ place hp
    obtain rfl := Option.some.inj (ht.symm.trans ht₁)
    exact (hd.window_apart hp he hu).mono hle
  · have hne : g ≠ e := by
      rintro rfl
      exact halone g (.inl hgt) rfl
    exact (hd.apart_of_ne (of_bind_openSlot? ht hgt).1 he hne).mono hle

end Steps

/-! ### Runs -/

section Chains

variable {cells after : ByteArray} {served front rest : List Served} {x : Served}
  {t t' : PartitionTable} {a n : ℕ} {offset : UInt64} {image : List UInt8}

/-- Requests that were served one after the other, from some cells to others. -/
inductive Chain (c : Session ρ) : ByteArray → List Served → ByteArray → Prop
  | nil (cells : ByteArray) : Chain c cells [] cells
  | cons {x : Served} {served : List Served} {next after : ByteArray} (step : Step c x next)
      (rest : Chain c next served after) : Chain c x.found (x :: served) after

theorem serveAll_chain (hc : Compact c) (requests : List SlotRequest)
    (hg : Guarded c (KeepsCells.cells s.flash)) : ∃ served s', Returns (c.serveAll requests) s served s' ∧
      served.map Served.request = requests ∧
      Chain c (KeepsCells.cells s.flash) served (KeepsCells.cells s'.flash) := by
  induction requests generalizing s with
  | nil => exact ⟨[], s, Returns.pure [] s, rfl, .nil _⟩
  | cons request requests ih =>
    obtain ⟨r, s₁, hends, hstep⟩ := serve_steps hc request hg
    obtain ⟨served, s', hrun, hmap, hchain⟩ := ih hstep.guarded
    refine ⟨_, s', serveAll_cons request hends hrun, ?_, .cons hstep hchain⟩
    rw [List.map_cons, hmap]

theorem Chain.guarded (h : Chain c cells served after) (hg : Guarded c cells) : Guarded c after := by
  induction h with
  | nil => exact hg
  | cons step rest ih => exact ih step.guarded

theorem Chain.size (h : Chain c cells served after) : after.size = cells.size := by
  induction h with
  | nil => rfl
  | cons step rest ih => exact ih.trans step.size

theorem Chain.leaves (h : Chain c cells served after) (hg : Guarded c cells) (ho : Outside c cells a n)
    (htarget : ∀ x ∈ served, ∀ e, c.target? x = some e →
      Cells.Apart e.offset.toNat e.length.toNat a n) :
    Cells.slice after a n = Cells.slice cells a n := by
  induction h with
  | nil => rfl
  | cons step rest ih =>
    have hrest := ih step.guarded (step.outside hg ho) fun y hy => htarget y (List.mem_cons_of_mem _ hy)
    exact hrest.trans (step.leaves a n ho (htarget _ List.mem_cons_self))

/-- A stored table comes from a stored table, with all protected entries. -/
theorem Chain.keeps (h : Chain c cells served after) (ht' : c.storedTable? after = some t') :
    ∃ t, c.storedTable? cells = some t ∧
      ∀ e ∈ t.listed, e.isProtected = true → e ∈ t'.listed := by
  induction h with
  | nil => exact ⟨t', ht', fun _ he _ => he⟩
  | cons step rest ih =>
    obtain ⟨t₁, ht₁, hkept⟩ := ih ht'
    obtain ⟨t, ht, hsucceeds⟩ := step.stored t₁ ht₁
    have hstep := hsucceeds.kept fun e he => (of_bind_openSlot? ht he).2
    exact ⟨t, ht, fun e he hp => hkept e (hstep e he hp) hp⟩

theorem Chain.holds (h : Chain c cells served after) (hg : Guarded c cells)
    (hh : Holds c cells offset image)
    (halone : ∀ x ∈ served, ∀ e, c.target? x = some e ∨ c.removed? x = some e → e.offset ≠ offset) :
    Holds c after offset image := by
  induction h with
  | nil => exact hh
  | cons step rest ih =>
    exact ih step.guarded (step.holds hg hh (halone _ List.mem_cons_self))
      fun y hy => halone y (List.mem_cons_of_mem _ hy)

/-- A chain goes up to each of its requests, through it, and on. -/
theorem Chain.split (h : Chain c cells (front ++ x :: rest) after) :
    ∃ next, Chain c cells front x.found ∧ Step c x next ∧ Chain c next rest after := by
  induction front generalizing cells with
  | nil =>
    cases h with
    | cons step rest => exact ⟨_, .nil _, step, rest⟩
  | cons y front ih =>
    cases h with
    | cons step rest =>
      obtain ⟨next, hfront, hx, hrest⟩ := ih rest
      exact ⟨next, .cons step hfront, hx, hrest⟩

end Chains

/-! ### Finding an image again -/

/-- A slot that holds an image is found at its offset, and passes the comparison. -/
theorem verifySlot_holds {t : PartitionTable} {offset : UInt64} {image : List UInt8}
    (hg : Guarded c (KeepsCells.cells s.flash)) (hh : Holds c (KeepsCells.cells s.flash) offset image)
    (ht : c.storedTable? (KeepsCells.cells s.flash) = some t) :
    ∃ slot, t.findOffset? offset = some slot ∧
      Ends (c.verifySlot .raw slot image) s (.ok ()) { s with table := t } := by
  obtain ⟨e, he, rfl, -, hle, hslice⟩ := hh t ht
  have hd := (hg t ht).1
  obtain ⟨slot, f, hslot, hf, ho⟩ := PartitionTable.findOffset?_of_mem he
  obtain rfl := hd.eq_of_offset (List.mem_of_getElem? hf) he ho
  have hinside := hd.inside f he
  have hentry := ends_slotEntry slot { s with table := t }
  have hpart := ends_slotPartition f { s with table := t }
  rw [PartitionTable.entry_eq_ok_iff.mpr hf] at hentry
  rw [ofEntry_of_inside hinside] at hpart
  refine ⟨slot, hslot, (ends_loadTable ht).discard_ok.bind (hentry.bind ?_)⟩
  rw [if_neg (Nat.not_lt.mpr hle)]
  refine Ends.bind (Ends.pure () _) (Ends.bind hpart (ends_compare ?_ ?_ ?_))
  · rwa [Nat.zero_add]
  · exact (Nat.add_le_add_left hle _).trans hinside
  · exact hslice

/-! ### What is left alone -/

/-- Serving requests touches only what the requests are about. -/
structure Undisturbed (c : Session ρ) (s s' : SessionState ρ φ) (served : List Served) : Prop where
  /-- The device stays as large as it was. -/
  size : (KeepsCells.cells s'.flash).size = (KeepsCells.cells s.flash).size
  /-- Bytes outside the windows of the tables stay, unless they are in a slot that is to be replaced. -/
  bytes : ∀ a n, Outside c (KeepsCells.cells s.flash) a n →
    (∀ x ∈ served, ∀ e, c.target? x = some e → Cells.Apart e.offset.toNat e.length.toNat a n) →
    Cells.slice (KeepsCells.cells s'.flash) a n = Cells.slice (KeepsCells.cells s.flash) a n
  /-- Protected entries stay as they are. -/
  entries : ∀ t t', c.storedTable? (KeepsCells.cells s.flash) = some t →
    c.storedTable? (KeepsCells.cells s'.flash) = some t' →
    ∀ e ∈ t.listed, e.isProtected = true → e ∈ t'.listed
  /-- A slot that was programmed and since then was neither to be replaced nor to be removed is found at its
  offset and compares equal to the image. -/
  images : ∀ front x rest kind slot image, served = front ++ x :: rest →
    x.request = .change (.program kind slot image) → x.result = .ok () →
    ∃ e, c.target? x = some e ∧
      ((∀ y ∈ rest, ∀ f, c.target? y = some f ∨ c.removed? y = some f → f.offset ≠ e.offset) →
        ∀ t', c.storedTable? (KeepsCells.cells s'.flash) = some t' →
          ∃ slot', t'.findOffset? e.offset = some slot' ∧
            Ends (c.verifySlot .raw slot' image) s' (.ok ()) { s' with table := t' })

/-- Whatever a session on a well-formed device is asked, and whichever calls of the device fail, requests
touch only what they are about. -/
theorem serveAll_undisturbed (c : Session ρ) (hc : Compact c) (requests : List SlotRequest)
    (s : SessionState ρ φ) (h : WellFormed c (KeepsCells.cells s.flash)) :
    ∃ served s', Returns (c.serveAll requests) s served s' ∧
      served.map Served.request = requests ∧ Undisturbed c s s' served := by
  have hg := (wellFormed_iff.mp h).1
  obtain ⟨served, s', hrun, hmap, hchain⟩ := serveAll_chain hc requests hg
  refine ⟨served, s', hrun, hmap, hchain.size, fun a n => hchain.leaves hg, fun t t' ht ht' => ?_, ?_⟩
  · obtain ⟨t₁, ht₁, hkept⟩ := hchain.keeps ht'
    obtain rfl := Option.some.inj (ht.symm.trans ht₁)
    exact hkept
  · rintro front x rest kind slot image rfl hx hr
    obtain ⟨next, hfront, hstep, hrest⟩ := hchain.split
    obtain ⟨e, htarget, hholds⟩ := hstep.programmed kind slot image hx hr
    refine ⟨e, htarget, fun halone t' ht' => ?_⟩
    exact verifySlot_holds (hchain.guarded hg) (hrest.holds hstep.guarded hholds halone) ht'

/-! ### A device that is interrupted -/

/-- An image that fits an open slot which is not booted is put there, in two calls. -/
theorem programRaw_accepted {slot : ℕ} (image : List UInt8) {t : PartitionTable} {b : PointerBlock}
    {e : PartitionEntry} (hs : Stores c (KeepsCells.cells s.flash) t (some b))
    (he : t.listed[slot]? = some e) (hu : e.isProtected = false)
    (hdis : (b.disable e.offset).1 = false) (hne : image ≠ []) (hle : image.length ≤ e.length.toNat) :
    ∃ b', Performs (c.programSlot .raw slot image) s (replaceChanges e.offset e.length.toNat image)
        (.ok ()) t b' ∧
      Careful c (replaceChanges e.offset e.length.toNat image) (KeepsCells.cells s.flash) ∧
      Stores c (afterAll (replaceChanges e.offset e.length.toNat image) (KeepsCells.cells s.flash))
        t (some b) := by
  have hmem := List.mem_of_getElem? he
  have hn : e.offset ∉ b.priorities := by
    have := not_mem_disable (b := b) e.offset
    rwa [PointerBlock.disable_of_not_changed hdis] at this
  obtain ⟨b', hp⟩ := performs_programSlot .raw ⟨hs.table, hs.block, he, hu⟩ hne hle rfl
  rw [contentChanges, contentResult, ofEntry_of_inside (hs.directory.inside e hmem), disableChanges,
    if_neg (by rw [hdis]; decide), List.nil_append] at hp
  exact ⟨b', hp, hs.contents _ hmem hu hn (inside_replaceChanges hle)⟩

section Interrupted

variable {s : SessionState ρ ScheduledFlash} {x : SessionM ρ ScheduledFlash Unit}
  {changes : List FlashChange} {r : Except UpdateError Unit} {t : PartitionTable} {b : PointerBlock}

/-- Careful changes that the schedule lets through are all made. -/
theorem ends_of_passing (hp : Performs x s changes r t b)
    (hcare : Careful c changes (KeepsCells.cells s.flash)) (hf : s.flash.device.failing = false)
    (hs : ∀ k < changes.length, s.flash.schedule (s.flash.calls.length + k) = none) :
    ∃ s', Ends x s r s' ∧
      KeepsCells.cells s'.flash = afterAll changes (KeepsCells.cells s.flash) ∧
      s'.flash.device.failing = false ∧ s'.flash.schedule = s.flash.schedule ∧
      s'.flash.calls.length = s.flash.calls.length + changes.length := by
  obtain ⟨f', hplay, hf', hschedule, hcalls⟩ := ScheduledFlash.playAll_of_fits hcare.fits hf hs
  exact ⟨_, hp.ends_of_ok hplay, (cells_playAll hplay).2, hf', hschedule, hcalls⟩

end Interrupted

def addedEntry : PartitionEntry := Catalog.newEntry "APP" 0x120000 0x1000

/-- On a device of the standard layout that lets six calls through, a slot is added and programmed. -/
theorem ends_create_program {s : SessionState Unit ScheduledFlash}
    (hs : Stores plainSession (KeepsCells.cells s.flash) FlashPlan.plain.table
      (some FlashPlan.plain.block)) (hsize : (KeepsCells.cells s.flash).size = 0x140000)
    (hf : s.flash.device.failing = false) (hcalls : s.flash.calls = [])
    (hpass : ∀ n < 6, s.flash.schedule n = none) :
    ∃ s₁ s₂, Ends (plainSession.perform (.create "APP" 0x120000 0x1000)) s (.ok ()) s₁ ∧
      Ends (plainSession.perform (.program .raw 6 [1, 2, 3])) s₁ (.ok ()) s₂ ∧
      plainSession.openSlot? (KeepsCells.cells s₁.flash) 6 = some addedEntry ∧
      Guarded plainSession (KeepsCells.cells s₂.flash) := by
  obtain ⟨t, hcreate, hcare, hs₁, hl⟩ := createSlot_accepted (s := s) "APP" 0x120000 0x1000
    compact_plainSession hs (by rw [hsize]; decide) (by rw [hsize]; decide +kernel)
  have hcreate : Performs (plainSession.perform (.create "APP" 0x120000 0x1000)) s
    (plainSession.tableChanges t) (.ok ()) t s.block := hcreate.andThen fun _ => Ends.pure _ _
  have hfour : (plainSession.tableChanges t).length = 4 := rfl
  obtain ⟨s₁, hends₁, hcells₁, hf₁, hschedule₁, hcalls₁⟩ := ends_of_passing hcreate hcare hf (by
    intro k hk
    rw [hcalls, List.length_nil, Nat.zero_add]
    exact hpass k (by omega))
  rw [← hcells₁] at hs₁
  have hlength : FlashPlan.plain.table.listed.length = 6 := by decide +kernel
  have he : t.listed[6]? = some addedEntry := by
    rw [hl, List.getElem?_append_right hlength.le, hlength]
    rfl
  obtain ⟨b, hprogram, hcare₂, hs₂⟩ := programRaw_accepted (s := s₁) [1, 2, 3] hs₁ he rfl
    (by decide +kernel) (by decide) (by decide)
  -- creating the slot took four calls, and a raw image takes two more
  obtain ⟨s₂, hends₂, hcells₂, -⟩ := ends_of_passing hprogram hcare₂ hf₁ (by
    intro k hk
    have hk : k < 2 := hk
    rw [hcalls₁, hschedule₁, hcalls, hfour, List.length_nil, Nat.zero_add]
    exact hpass (4 + k) (by omega))
  rw [← hcells₂] at hs₂
  exact ⟨s₁, s₂, hends₁, hends₂, Open.openSlot? ⟨hs₁.table, hs₁.block, he, rfl⟩, hs₂.guarded⟩

/-- A device of the standard layout on which all calls fail from the seventh on. -/
def interruptedState : SessionState Unit ScheduledFlash where
  channel := { registers := () }
  flash := {
    device := plainFlash
    schedule := fun n => if n < 6 then none else some .failed }

theorem device_interruptedState : interruptedState.flash.device = plainFlash := rfl

theorem cells_interruptedState : KeepsCells.cells interruptedState.flash = plainFlash.cells := by
  rw [ScheduledFlash.cells_eq, device_interruptedState]

/-- A slot is added and programmed; then nothing more can be written, and the slot is still found and holds
the image. -/
theorem serveAll_undisturbed_interrupted :
    Compact plainSession ∧ WellFormed plainSession (KeepsCells.cells interruptedState.flash) ∧
      ∃ served s', Returns (plainSession.serveAll [.change (.create "APP" 0x120000 0x1000),
          .change (.program .raw 6 [1, 2, 3]), .change (.create "NEXT" 0x121000 0x1000),
          .byName "APP"]) interruptedState served s' ∧
        Undisturbed plainSession interruptedState s' served ∧
        (served.map Served.result).take 2 = [.ok (), .ok ()] ∧
        ∀ t, plainSession.storedTable? (KeepsCells.cells s'.flash) = some t →
          ∃ slot, t.findOffset? 0x120000 = some slot ∧
            Ends (plainSession.verifySlot .raw slot [1, 2, 3]) s' (.ok ()) { s' with table := t } := by
  have hwell : WellFormed plainSession (KeepsCells.cells interruptedState.flash) := by
    rw [cells_interruptedState]
    exact wellFormed_plainFlash
  refine ⟨compact_plainSession, hwell, ?_⟩
  obtain ⟨served, s', hrun, hmap, hleft⟩ := serveAll_undisturbed plainSession compact_plainSession
    [.change (.create "APP" 0x120000 0x1000), .change (.program .raw 6 [1, 2, 3]),
      .change (.create "NEXT" 0x121000 0x1000), .byName "APP"] interruptedState hwell
  obtain ⟨s₁, s₂, hcreate, hprogram, hentry, hg⟩ := ends_create_program (s := interruptedState)
    (by rw [cells_interruptedState]; exact stores_plainFlash)
    (by rw [cells_interruptedState]; exact size_plainFlash)
    (by rw [device_interruptedState]; exact failing_plainFlash) rfl fun n hn => if_pos hn
  obtain ⟨rest, s₃, hrest, hmap', -⟩ := serveAll_chain compact_plainSession
    [.change (.create "NEXT" 0x121000 0x1000), .byName "APP"] hg
  obtain ⟨rfl, rfl⟩ := hrun.unique (serveAll_cons (.change _) hcreate
    (serveAll_cons (.change _) hprogram hrest))
  refine ⟨_, s', hrun, hleft, rfl, ?_⟩
  obtain ⟨e, htarget, hfound⟩ := hleft.images [_] _ rest .raw 6 [1, 2, 3] rfl rfl rfl
  rw [target?_program] at htarget
  obtain rfl := Option.some.inj (htarget.symm.trans hentry)
  refine hfound fun y hy f hf => ?_
  -- the requests that follow are about no slot that there is
  have hnone : y.request.operation?.bind SlotOperation.rewritten? = none ∧
      y.request.operation?.bind SlotOperation.removed? = none := by
    have := List.mem_map_of_mem (f := Served.request) hy
    rw [hmap'] at this
    rcases List.mem_cons.mp this with h | h
    · rw [h]
      exact ⟨rfl, rfl⟩
    · rw [List.mem_singleton.mp h]
      exact ⟨rfl, rfl⟩
  unfold target? removed? at hf
  rw [hnone.1, hnone.2] at hf
  rcases hf with h | h <;> cases h

end Session
end RemoteUpdate
