import RemoteUpdate.Proofs.Mailbox.Conduct

/-!
# Access by access

The conduct of each program of the driver: what it writes and reads, how often it looks, what it takes out
of the response ring, and how many accesses that takes at most. What is taken is a `Haul`: whole responses,
and at the end the front of one more if the driver gave up waiting for the rest of it.
-/

namespace RemoteUpdate

theorem ResponseHeader.length_lt (h : ResponseHeader) : h.length < 2048 := by
  have hmask : HeaderField.length.mask.toNat = 2 ^ 11 - 1 := rfl
  show (_ &&& HeaderField.length.mask).toNat < 2048
  rw [UInt32.toNat_and, hmask, Nat.and_two_pow_sub_one_eq_mod]
  omega

/-! ### Hauls -/

/-- Responses that have been taken out of a ring, and the header of one more with those of its data words
that came, if not all came. -/
structure Haul where
  whole : List Response := []
  cut : Option (ResponseHeader × List UInt32) := none
  short : ∀ header data, cut = some (header, data) → data.length < header.length := by simp

namespace Haul

def words (h : Haul) : List UInt32 :=
  Response.wire h.whole ++ (h.cut.map fun c => c.1.word :: c.2).getD []

def headers (h : Haul) : List ResponseHeader :=
  h.whole.map Response.header ++ (h.cut.map Prod.fst).toList

def cons (r : Response) (h : Haul) : Haul :=
  { h with whole := r :: h.whole }

@[simp] theorem words_cons (r : Response) (h : Haul) : (h.cons r).words = r.words ++ h.words := by
  simp [words, cons, Response.words]

@[simp] theorem headers_cons (r : Response) (h : Haul) :
    (h.cons r).headers = r.header :: h.headers := rfl

end Haul

namespace Mailbox

variable {ρ : Type} {m : Mailbox ρ}

/-- How many of the headers belong to other clients or transactions. -/
def strays (m : Mailbox ρ) (headers : List ResponseHeader) : Nat :=
  headers.countP fun h => !h.answers m.client m.transaction

/-! ### Giving up -/

/-- A look at the producer's cursor of the response ring, and a delay. -/
def poll (m : Mailbox ρ) (value : UInt32) : List Access :=
  [.read m.map.responseIn value, .delay m.timing.interval]

/-- Among the accesses are as many polls in a row as the driver makes for one data word, and none of them
finds a word. -/
def GivesUp (m : Mailbox ρ) (accesses : List Access) : Prop :=
  ∃ (values : List UInt32) (rout : Nat), values.length = m.timing.dataPolls ∧
    (∀ value ∈ values, m.responseRing.wrap value.toNat = rout) ∧
    values.flatMap m.poll <:+: accesses

theorem GivesUp.mono {accesses longer : List Access} (h : m.GivesUp accesses)
    (h' : accesses <:+: longer) : m.GivesUp longer := by
  obtain ⟨values, rout, hlength, hvalues, hpolls⟩ := h
  exact ⟨values, rout, hlength, hvalues, hpolls.trans h'⟩

theorem GivesUp.before {trail later : Trail} (h : m.GivesUp trail.accesses) :
    m.GivesUp (trail ++ later).accesses := by
  apply h.mono
  rw [accesses_append]
  exact (List.prefix_append _ _).isInfix

theorem GivesUp.after {trail later : Trail} (h : m.GivesUp later.accesses) :
    m.GivesUp (trail ++ later).accesses := by
  apply h.mono
  rw [accesses_append]
  exact (List.suffix_append _ _).isInfix

/-! ### Sending -/

variable [RegisterBlock ρ] {I : ρ → Prop} {p q : Stage}

/-- The doorbell is not looked at, and nothing is taken out of the response ring. -/
def Trail.Aside (trail : Trail) : Prop :=
  trail.looks = 0 ∧ trail.taken = []

theorem Trail.Aside.append {trail later : Trail} (h : trail.Aside) (h' : later.Aside) :
    (trail ++ later).Aside := by
  constructor
  · rw [looks_append, h.1, h'.1]
  · rw [taken_append, h.2, h'.2, List.append_nil]

theorem Trail.Aside.looks {trail later : Trail} (h : trail.Aside) :
    (trail ++ later).looks = later.looks := by
  rw [looks_append, h.1, Nat.zero_add]

theorem Trail.Aside.taken {trail later : Trail} (h : trail.Aside) :
    (trail ++ later).taken = later.taken := by
  rw [taken_append, h.2, List.nil_append]

/-- The doorbell is not looked at, nothing is taken, and there are at most so many delays and accesses. -/
structure Trail.Within (trail : Trail) (delays accesses : Nat) : Prop where
  aside : trail.Aside
  delays : trail.delays ≤ delays
  length : trail.length ≤ accesses

section Budgets

omit [RegisterBlock ρ]

variable {trail later : Trail} {delays accesses delays' accesses' : Nat}

theorem Trail.Within.mono (h : trail.Within delays accesses) (hdelays : delays ≤ delays')
    (haccesses : accesses ≤ accesses') : trail.Within delays' accesses' :=
  ⟨h.aside, h.delays.trans hdelays, h.length.trans haccesses⟩

theorem Trail.Within.append (h : trail.Within delays accesses) (h' : later.Within delays' accesses') :
    (trail ++ later).Within (delays + delays') (accesses + accesses') := by
  refine ⟨h.aside.append h'.aside, ?_, ?_⟩
  · rw [delays_append]
    exact Nat.add_le_add h.delays h'.delays
  · rw [List.length_append]
    exact Nat.add_le_add h.length h'.length

end Budgets

/-- The accesses that a word for the command ring takes at most. -/
def wordCost (m : Mailbox ρ) : Nat :=
  2 * m.timing.commandPolls + 3

section Sending

variable (hI : Responsive I) (hring : m.commandRing.capacity ≠ 0)
include hI hring

/-- The word is in the ring, or the driver has given up. -/
def Offered (m : Mailbox ρ) (cin : Nat) (r : Except MailboxError Nat) (q : Stage) : Prop :=
  r = .ok (m.commandRing.next cin) ∧ q = .offering (m.commandRing.next cin) 0 ∨ r = .error .timeout

omit hring in
/-- The first time that the ring is found full the doorbell is rung, and each time the driver waits. -/
theorem conducts_awaitRoom {cin polls delays : Nat} {word : UInt32} (rung : Bool)
    (hlt : delays < m.timing.commandPolls)
    (hrest : Conducts m I (writeWord.go m cin word polls true).run (.offering cin (delays + 1))
      fun r trail q => trail.Within polls (2 * polls + 2) ∧ m.Offered cin r q) :
    Conducts m I (do
      unless rung do m.write m.map.doorbellToSdm 1
      m.delay m.timing.interval
      writeWord.go m cin word polls true : MailboxM ρ Nat).run (.offering cin delays)
      fun r trail q =>
        trail.Within (polls + 1) (2 * polls + 3 + (if rung then 0 else 1)) ∧ m.Offered cin r q := by
  have wait : Conducts m I (do
      m.delay m.timing.interval
      writeWord.go m cin word polls true : MailboxM ρ Nat).run (.offering cin delays)
      fun r trail q => trail.Within (1 + polls) (1 + (2 * polls + 2)) ∧ m.Offered cin r q := by
    refine (conducts_delay hI (.stall hlt _)).lift_bind ?_
    rintro _ _ _ ⟨rfl, rfl⟩
    refine hrest.mono ?_
    rintro r trail q ⟨hwithin, hr⟩
    have hdelay : Trail.Within [(.offering cin delays, .delay m.timing.interval)] 1 1 :=
      ⟨⟨rfl, rfl⟩, le_rfl, le_rfl⟩
    exact ⟨hdelay.append hwithin, hr⟩
  -- the nudge comes before the first wait only, and it is the one access more
  cases rung with
  | true =>
    refine wait.mono ?_
    rintro r trail q ⟨hwithin, hr⟩
    refine ⟨hwithin.mono (by omega) ?_, hr⟩
    rw [if_pos rfl]
    omega
  | false =>
    refine (conducts_write hI (.nudge cin delays)).lift_bind ?_
    rintro _ _ _ ⟨rfl, rfl⟩
    refine wait.mono ?_
    rintro r trail q ⟨hwithin, hr⟩
    have hring : Trail.Within [(.offering cin delays, .write m.map.doorbellToSdm 1)] 0 1 :=
      ⟨⟨rfl, rfl⟩, le_rfl, le_rfl⟩
    refine ⟨(hring.append hwithin).mono (by omega) ?_, hr⟩
    rw [if_neg Bool.false_ne_true]
    omega

theorem conducts_writeWord (cin : Nat) (word : UInt32) :
    Conducts m I (m.writeWord cin word).run (.offering cin 0) fun r trail q =>
      trail.Within m.timing.commandPolls m.wordCost ∧ m.Offered cin r q := by
  -- the doorbell is rung once at most, so its access is paid for only while it has not been rung
  have loop : ∀ polls delays rung, delays + polls = m.timing.commandPolls →
      Conducts m I (writeWord.go m cin word polls rung).run (.offering cin delays) fun r trail q =>
        trail.Within polls (2 * polls + 2 + (if rung then 0 else 1)) ∧ m.Offered cin r q := by
    intro polls
    induction polls with
    | zero =>
      intro delays rung _
      refine (conducts_log m I _ _).lift_bind ?_
      rintro _ _ _ ⟨rfl, rfl⟩
      exact .pure ⟨⟨⟨rfl, rfl⟩, le_rfl, Nat.zero_le _⟩, .inr rfl⟩
    | succ polls ih =>
      intro delays rung hpolls
      unfold writeWord.go
      refine (conducts_read hI (fun value => if m.commandRing.isFull cin value.toNat
        then .offering cin delays else .roomy cin) ?_).lift_bind ?_
      · intro value
        cases hfull : m.commandRing.isFull cin value.toNat with
        | true => exact .full hfull
        | false => exact .room hfull
      rintro value _ _ ⟨rfl, rfl⟩
      rw [Ring.whenSlotted, if_neg hring]
      refine (conducts_orAbort m I _ _).lift_bind ?_
      rintro _ _ _ ⟨rfl, rfl, rfl⟩
      cases hfull : m.commandRing.isFull cin value.toNat with
      | true =>
        refine (conducts_awaitRoom hI rung (by omega) (ih (delays + 1) true (by omega))).mono ?_
        rintro r trail q ⟨hwithin, hr⟩
        have hread : Trail.Within [(.offering cin delays, .read m.map.commandOut value)] 0 1 :=
          ⟨⟨rfl, rfl⟩, le_rfl, le_rfl⟩
        exact ⟨(hread.append hwithin).mono (by omega) (by omega), hr⟩
      | false =>
        refine (conducts_write hI (.place cin word)).lift_bind ?_
        rintro _ _ _ ⟨rfl, rfl⟩
        refine (conducts_write hI (.push cin word)).lift_bind ?_
        rintro _ _ _ ⟨rfl, rfl⟩
        refine .pure ⟨⟨⟨rfl, rfl⟩, Nat.zero_le _, ?_⟩, .inl ⟨rfl, rfl⟩⟩
        simp only [List.length_append, List.length_cons, List.length_nil]
        omega
  exact loop m.timing.commandPolls 0 false (Nat.zero_add _)

theorem conducts_writeWords (cin : Nat) (words : List UInt32) :
    Conducts m I (m.writeWords cin words).run (.offering cin 0) fun r trail q =>
      trail.Aside ∧ trail.length ≤ words.length * m.wordCost ∧
        ((∃ cin', r = .ok cin' ∧ q = .offering cin' 0) ∨ r = .error .timeout) := by
  induction words generalizing cin with
  | nil => exact .pure ⟨⟨rfl, rfl⟩, by simp, .inl ⟨cin, rfl, rfl⟩⟩
  | cons word words ih =>
    unfold writeWords
    refine (conducts_writeWord hI hring cin word).run_bind ?_ ?_
    · rintro next trail q ⟨⟨haside, -, hlength⟩, ⟨⟨⟩, rfl⟩ | ⟨⟨⟩⟩⟩
      refine (ih _).mono ?_
      rintro r later q ⟨haside', hlength', hr'⟩
      refine ⟨haside.append haside', ?_, hr'⟩
      rw [List.length_append, List.length_cons, Nat.succ_mul]
      omega
    · rintro e trail q ⟨⟨haside, -, hlength⟩, ⟨⟨⟩, -⟩ | ⟨⟨⟩⟩⟩
      refine ⟨haside, ?_, .inr rfl⟩
      rw [List.length_cons, Nat.succ_mul]
      omega

/-- A command that may be sent is sent, or the driver runs out of patience. -/
theorem conducts_sendCommand (opcode : UInt32) (indirect : Bool) (arguments : List UInt32) :
    Conducts m I (m.sendCommand opcode indirect arguments).run .idle fun r trail q =>
      trail.Aside ∧ trail.length ≤ (arguments.length + 1) * m.wordCost + 2 ∧
        (r = .ok () ∧ q = .looking ∨ r = .error .timeout ∨
          r = .error .invalidArgument ∧ (maxOpcode < opcode ∨ maxArguments < arguments.length)) := by
  unfold sendCommand
  by_cases hinvalid : maxOpcode < opcode ∨ maxArguments < arguments.length
  · rw [if_pos hinvalid]
    exact .pure ⟨⟨rfl, rfl⟩, by simp, .inr (.inr ⟨rfl, hinvalid⟩)⟩
  rw [if_neg hinvalid]
  refine (conducts_cursor hI hring (.offering · 0) .start).lift_bind ?_
  rintro cin _ _ ⟨⟨value, rfl, rfl⟩, rfl⟩
  refine (conducts_writeWords hI hring _ _).run_discard.run_bind ?_ ?_
  · rintro _ trail q ⟨_, ⟨haside, hlength, ⟨cin', rfl, rfl⟩ | rfl⟩, ⟨⟩⟩
    refine (conducts_write hI (.ring cin' 0)).lift_bind ?_
    rintro _ _ _ ⟨rfl, rfl⟩
    refine .lift ((conducts_log m I _ _).mono ?_)
    rintro _ _ _ ⟨rfl, rfl⟩
    refine ⟨.append ⟨rfl, rfl⟩ (haside.append ⟨rfl, rfl⟩), ?_, .inl ⟨rfl, rfl⟩⟩
    simp only [List.length_append, List.length_cons, List.length_nil] at hlength ⊢
    omega
  · rintro e trail q ⟨_, ⟨haside, hlength, ⟨cin', rfl, -⟩ | rfl⟩, ⟨⟩⟩
    refine ⟨.append ⟨rfl, rfl⟩ haside, ?_, .inr (.inl rfl)⟩
    simp only [List.length_append, List.length_cons, List.length_nil] at hlength ⊢
    omega

end Sending

/-! ### The doorbell -/

section Collecting

variable (hI : Responsive I)
include hI

/-- A look at the doorbell. If it is not raised, the driver goes on as it likes. -/
theorem conducts_takeDoorbell (away : Stage) (haway : ∀ value : UInt32, value &&& 1 = 0 →
    Move m .looking (.read m.map.doorbellFromSdm value) away) :
    Conducts m I m.takeDoorbell .looking fun raised trail q =>
      trail.looks = 1 ∧ trail.taken = [] ∧ trail.length ≤ 2 ∧
        q = if raised then .cleared else away := by
  unfold takeDoorbell
  refine (conducts_read hI (fun value => if value &&& 1 = 0 then away else .heard) ?_).bind ?_
  · intro value
    split
    next h => exact haway value h
    next h => exact .hear h
  rintro value _ _ ⟨rfl, rfl⟩
  by_cases h : value &&& 1 = 0
  · rw [if_pos h, if_pos h]
    exact .pure ⟨rfl, rfl, by simp, rfl⟩
  · rw [if_neg h, if_neg h]
    refine (conducts_write hI .clear).bind ?_
    rintro _ _ _ ⟨rfl, rfl⟩
    exact .pure ⟨rfl, rfl, by simp, rfl⟩

theorem conducts_waitDoorbell (budget : Nat) :
    Conducts m I (m.waitDoorbell budget).run .looking fun r trail q =>
      trail.looks ≤ budget ∧ trail.taken = [] ∧ trail.length ≤ 3 * budget ∧
        (r = .ok () ∧ q = .cleared ∨ r = .error .timeout) := by
  -- a look costs a read and a write if the bell is up, a read and a delay if it is not
  induction budget with
  | zero =>
    refine (conducts_log m I _ _).lift_bind ?_
    rintro _ _ _ ⟨rfl, rfl⟩
    exact .pure ⟨le_rfl, rfl, le_rfl, .inr rfl⟩
  | succ budget ih =>
    unfold waitDoorbell
    refine (conducts_takeDoorbell hI .looking fun _ => .quiet).lift_bind ?_
    rintro raised trail _ ⟨hlooks, htaken, hlength, rfl⟩
    cases raised with
    | true =>
      refine .pure ⟨?_, ?_, ?_, .inl ⟨rfl, rfl⟩⟩
      · rw [List.append_nil]
        omega
      · rw [List.append_nil, htaken]
      · rw [List.append_nil]
        omega
    | false =>
      refine (conducts_delay hI (.sleep _)).lift_bind ?_
      rintro _ _ _ ⟨rfl, rfl⟩
      refine ih.mono ?_
      rintro r later q ⟨hlooks', htaken', hlength', hr⟩
      have hdelay : Trail.Aside [(.looking, .delay m.timing.interval)] := ⟨rfl, rfl⟩
      refine ⟨?_, ?_, ?_, hr⟩
      · rw [looks_append, hdelay.looks]
        omega
      · rw [taken_append, hdelay.taken, htaken, htaken', List.append_nil]
      · simp only [List.length_append, List.length_cons, List.length_nil]
        omega

/-! ### Words of the response ring -/

variable (hring : m.responseRing.capacity ≠ 0)
include hring

theorem conducts_responseCursor : Conducts m I m.responseCursor .cleared fun rout trail q =>
    trail.Aside ∧ trail.length = 1 ∧ q = .reading rout 0 := by
  refine (conducts_cursor hI hring (.reading · 0) .locate).mono ?_
  rintro rout _ _ ⟨⟨value, -, rfl⟩, rfl⟩
  exact ⟨⟨rfl, rfl⟩, rfl, rfl⟩

/-- A look at the producer's cursor of the response ring. If there is no word, the driver goes on as it
likes. -/
theorem conducts_responsePending {rout delays : Nat} (dry : Stage)
    (hdry : ∀ value : UInt32, m.responseRing.wrap value.toNat = rout →
      Move m (.reading rout delays) (.read m.map.responseIn value) dry) :
    Conducts m I (m.responsePending rout) (.reading rout delays) fun pending trail q =>
      ∃ value, trail = [(.reading rout delays, .read m.map.responseIn value)] ∧
        (pending = true ∧ q = .pending rout ∨
          pending = false ∧ m.responseRing.wrap value.toNat = rout ∧ q = dry) := by
  unfold responsePending
  refine (conducts_cursor hI hring (fun rin => if rin = rout then dry else .pending rout) ?_).bind ?_
  · intro value
    split
    next h => exact hdry value h
    next h => exact .found h
  rintro rin _ _ ⟨⟨value, rfl, rfl⟩, rfl⟩
  refine .pure ⟨value, rfl, ?_⟩
  by_cases h : m.responseRing.wrap value.toNat = rout
  · rw [if_pos h, h, bne_self_eq_false]
    exact .inr ⟨rfl, rfl, rfl⟩
  · rw [if_neg h, bne_iff_ne.mpr h]
    exact .inl ⟨rfl, rfl⟩

omit hring in
theorem conducts_readWord (rout : Nat) :
    Conducts m I (m.readWord rout) (.pending rout) fun r trail q =>
      trail.looks = 0 ∧ trail.taken = [r.1] ∧ trail.length = 2 ∧ q = .reading r.2 0 := by
  unfold readWord
  refine (conducts_read hI (.held rout) (.take rout)).bind ?_
  rintro word _ _ ⟨rfl, rfl⟩
  refine (conducts_write hI (.release rout word)).bind ?_
  rintro _ _ _ ⟨rfl, rfl⟩
  exact .pure ⟨rfl, rfl, rfl, rfl⟩

theorem conducts_waitWord (rout : Nat) :
    Conducts m I (m.waitWord rout) (.reading rout 0) fun came trail q =>
      trail.Within m.timing.dataPolls (2 * m.timing.dataPolls) ∧
        (came = true ∧ q = .pending rout ∨ came = false ∧ m.GivesUp trail.accesses) := by
  -- the delays already made are counted up to the budget, since a stage that is reading names them
  have loop : ∀ polls delays, delays + polls = m.timing.dataPolls →
      Conducts m I (waitWord.go m rout polls) (.reading rout delays) fun came trail q =>
        trail.Within polls (2 * polls) ∧
          (came = true ∧ q = .pending rout ∨ came = false ∧ ∃ values : List UInt32, values.length = polls ∧
            (∀ value ∈ values, m.responseRing.wrap value.toNat = rout) ∧
            trail.accesses = values.flatMap m.poll) := by
    intro polls
    induction polls with
    | zero =>
      intro delays _
      unfold waitWord.go
      refine (conducts_log m I _ _).bind ?_
      rintro _ _ _ ⟨rfl, rfl⟩
      exact .pure ⟨⟨⟨rfl, rfl⟩, le_rfl, le_rfl⟩, .inr ⟨rfl, [], rfl, by simp, rfl⟩⟩
    | succ polls ih =>
      intro delays hpolls
      unfold waitWord.go
      refine (conducts_responsePending hI hring (.reading rout delays) fun _ => .empty).bind ?_
      rintro pending _ _ ⟨value, rfl, ⟨rfl, rfl⟩ | ⟨rfl, hvalue, rfl⟩⟩
      · refine .pure ⟨⟨⟨rfl, rfl⟩, Nat.zero_le _, ?_⟩, .inl ⟨rfl, rfl⟩⟩
        simp only [List.append_nil, List.length_singleton]
        omega
      · refine (conducts_delay hI (.await (by omega) _)).bind ?_
        rintro _ _ _ ⟨rfl, rfl⟩
        refine (ih (delays + 1) (by omega)).mono ?_
        rintro came trail q ⟨hwithin, hcame⟩
        have hread : Trail.Within [(.reading rout delays, .read m.map.responseIn value)] 0 1 :=
          ⟨⟨rfl, rfl⟩, le_rfl, le_rfl⟩
        have hdelay : Trail.Within [(.reading rout delays, .delay m.timing.interval)] 1 1 :=
          ⟨⟨rfl, rfl⟩, le_rfl, le_rfl⟩
        refine ⟨(hread.append (hdelay.append hwithin)).mono ?_ ?_, hcame.imp_right ?_⟩
        · omega
        · omega
        · rintro ⟨rfl, values, hcount, hvalues, haccesses⟩
          refine ⟨rfl, value :: values, by rw [List.length_cons, hcount], ?_, ?_⟩
          · exact List.forall_mem_cons.mpr ⟨hvalue, hvalues⟩
          · rw [accesses_append, accesses_append, haccesses]
            rfl
  refine (loop m.timing.dataPolls 0 (Nat.zero_add _)).mono ?_
  rintro came trail q ⟨hwithin, hcame⟩
  refine ⟨hwithin, hcame.imp_right ?_⟩
  rintro ⟨rfl, values, hcount, hvalues, haccesses⟩
  exact ⟨rfl, values, rout, hcount, hvalues, haccesses ▸ List.infix_rfl⟩

def dataCost (m : Mailbox ρ) : Nat :=
  2 * m.timing.dataPolls + 2

theorem conducts_readData (rout count : Nat) :
    Conducts m I (m.readData rout count) (.reading rout 0) fun r trail q =>
      trail.looks = 0 ∧ trail.taken = r.1 ∧ trail.length ≤ count * m.dataCost ∧
        ((∃ next, r.2 = some next ∧ r.1.length = count ∧ q = .reading next 0) ∨
          r.2 = none ∧ r.1.length < count ∧ m.GivesUp trail.accesses) := by
  induction count generalizing rout with
  | zero => exact .pure ⟨rfl, rfl, by simp, .inl ⟨rout, rfl, rfl, rfl⟩⟩
  | succ count ih =>
    unfold readData
    refine (conducts_waitWord hI hring rout).bind ?_
    rintro came trail q ⟨⟨haside, -, hlength⟩, hcame⟩
    rcases hcame with ⟨rfl, rfl⟩ | ⟨rfl, hgaveUp⟩
    · refine (conducts_readWord hI rout).bind ?_
      rintro ⟨word, next⟩ trail' _ ⟨hlooks, htaken, hlength', rfl⟩
      refine (ih next).bind ?_
      rintro ⟨data, last⟩ trail'' q ⟨hlooks', htaken', hlength'', hlast⟩
      refine .pure ⟨?_, ?_, ?_, ?_⟩
      · rw [haside.looks, looks_append, hlooks, List.append_nil, hlooks']
      · rw [haside.taken, taken_append, htaken, List.append_nil, htaken']
        rfl
      · simp only [List.length_append, List.length_nil, Nat.succ_mul]
        unfold dataCost at *
        omega
      · rcases hlast with ⟨next', rfl, hcount, rfl⟩ | ⟨rfl, hcount, hgaveUp⟩
        · exact .inl ⟨next', rfl, by rw [List.length_cons, hcount], rfl⟩
        · refine .inr ⟨rfl, Nat.succ_lt_succ hcount, ?_⟩
          exact .after (.after (.before hgaveUp))
    · refine .pure ⟨?_, ?_, ?_, .inr ⟨rfl, Nat.succ_pos count, hgaveUp.before⟩⟩
      · rw [haside.looks]
        rfl
      · rw [haside.taken]
        rfl
      · rw [List.append_nil, Nat.succ_mul]
        unfold dataCost
        omega

/-! ### Responses -/

def responseCost (m : Mailbox ρ) : Nat :=
  2047 * m.dataCost + 4

theorem conducts_unread (rout : Nat) :
    Conducts m I (m.unread (some rout)) (.reading rout 0) fun r trail q =>
      trail.Aside ∧ trail.length = 1 ∧
        (r = some rout ∧ q = .pending rout ∨ r = none ∧ q = .looking) := by
  unfold unread
  refine (conducts_responsePending hI hring .looking fun _ => .drained).bind ?_
  rintro pending _ _ ⟨value, rfl, ⟨rfl, rfl⟩ | ⟨rfl, -, rfl⟩⟩
  · exact .pure ⟨⟨rfl, rfl⟩, rfl, .inl ⟨rfl, rfl⟩⟩
  · exact .pure ⟨⟨rfl, rfl⟩, rfl, .inr ⟨rfl, rfl⟩⟩

/-- These words are taken out of the response ring in one go, at no more than the cost of a response. -/
structure Takes (m : Mailbox ρ) (words : List UInt32) (trail : Trail) : Prop where
  looks : trail.looks = 0
  taken : trail.taken = words
  length : trail.length + 2 ≤ m.responseCost

/-- A response that decides an attempt: the driver has given up waiting for the rest of it, or it answers
the command, or time has run out. -/
structure Decides (m : Mailbox ρ) (a : Attempt) (trail : Trail) (h : Haul) : Prop where
  one : h.headers.length = 1
  gaveUp : h.cut ≠ none → m.GivesUp trail.accesses
  answered : a.result ≠ .error .timeout → ∃ x ∈ h.headers, x.answers m.client m.transaction = true

/-- A response is taken whole or cut short. If it is taken whole and answers another command, the driver
goes on after it. -/
theorem conducts_takeResponse (opcode : UInt32) (room rout : Nat) :
    Conducts m I (m.takeResponse opcode room rout) (.pending rout) fun result trail q =>
      ∃ header data, m.Takes (ResponseHeader.word header :: data) trail ∧
        ((data.length = header.length ∧ header.answers m.client m.transaction = false ∧
            ∃ next, result = .ok next ∧ q = .reading next 0) ∨
          (data.length = header.length ∧ header.answers m.client m.transaction = true ∧
            result = .error ⟨resultOfCode header.code (data.take room).length, data.take room⟩) ∨
          (data.length < header.length ∧ m.GivesUp trail.accesses ∧ result = .error ⟨.error .timeout,
            if header.answers m.client m.transaction then data.take room else []⟩)) := by
  unfold takeResponse
  refine (conducts_readWord hI rout).bind ?_
  rintro ⟨word, next⟩ trail _ ⟨hlooks, htaken, hlength, rfl⟩
  refine (conducts_readData hI hring next (ResponseHeader.mk word).length).bind ?_
  rintro ⟨data, last⟩ later q ⟨hlooks', htaken', hlength', hlast⟩
  have takes : m.Takes (word :: data) (trail ++ later) := by
    have hcost : later.length ≤ 2047 * m.dataCost := by
      have hheader := (ResponseHeader.mk word).length_lt
      exact hlength'.trans (Nat.mul_le_mul_right _ (by omega))
    constructor
    · rw [looks_append, hlooks, hlooks']
    · rw [taken_append, htaken, htaken']
      rfl
    · rw [List.length_append]
      unfold responseCost
      omega
  -- whole or cut short: only a whole response leads to the next one
  rcases hlast with ⟨rout', rfl, hcount, rfl⟩ | ⟨rfl, hcount, hgaveUp⟩
  · simp only
    by_cases hanswers : (ResponseHeader.mk word).answers m.client m.transaction = true
    · rw [if_pos hanswers, if_pos hanswers]
      refine (conducts_log m I _ _).bind ?_
      rintro _ _ _ ⟨rfl, rfl⟩
      refine .pure ⟨⟨word⟩, data, ?_, .inr (.inl ⟨hcount, hanswers, rfl⟩)⟩
      rwa [List.append_nil, List.append_nil]
    · rw [if_neg hanswers]
      refine (conducts_log m I _ _).bind ?_
      rintro _ _ _ ⟨rfl, rfl⟩
      refine .pure ⟨⟨word⟩, data, ?_, .inl ⟨hcount, by simpa using hanswers, rout', rfl, rfl⟩⟩
      rwa [List.append_nil, List.append_nil]
  · refine .pure ⟨⟨word⟩, data, ?_, .inr (.inr ⟨hcount, ?_, rfl⟩)⟩
    · rwa [List.append_nil]
    · rw [List.append_nil]
      exact hgaveUp.after

/-- A response that is cut short decides the attempt, and so does one that answers the command. -/
theorem conducts_takeResponse_decides (opcode : UInt32) (room rout : Nat) :
    Conducts m I (m.takeResponse opcode room rout) (.pending rout) fun result trail q =>
      (∃ next r, result = .ok next ∧ q = .reading next 0 ∧ m.Takes (Response.words r) trail) ∨
        ∃ a h, result = .error a ∧ m.Takes (Haul.words h) trail ∧ m.Decides a trail h := by
  refine (conducts_takeResponse hI hring opcode room rout).mono ?_
  rintro result trail q ⟨header, data, htakes, h⟩
  rcases h with ⟨hcount, -, next, rfl, rfl⟩ | ⟨hcount, hanswers, rfl⟩ | ⟨hcount, hgaveUp, rfl⟩
  · exact .inl ⟨next, ⟨header, data, hcount⟩, rfl, rfl, htakes⟩
  · refine .inr ⟨_, { whole := [⟨header, data, hcount⟩] }, rfl, ?_, rfl, nofun, fun _ => ?_⟩
    · simpa [Haul.words, Response.wire, Response.words] using htakes
    · exact ⟨header, List.mem_singleton_self _, hanswers⟩
  · have hshort : ∀ header' words, some (header, data) = some (header', words) →
        words.length < header'.length := by
      rintro _ _ ⟨⟩
      exact hcount
    refine .inr ⟨_, ⟨[], some (header, data), hshort⟩, rfl, ?_, rfl, fun _ => hgaveUp, fun h => ?_⟩
    · simpa [Haul.words] using htakes
    · exact absurd rfl h

/-- What may be said of collecting an answer, with so many units left to spend, if so much can be said of
taking a response. -/
structure CollectRules (E : Except Attempt Nat → Trail → Prop) (Q : Nat → Attempt → Trail → Prop) :
    Prop where
  nothing {first} : first.Aside → first.length ≤ 1 → Q 0 { result := .error .timeout } first
  onlyStrays {first trail next} : first.Aside → first.length ≤ 1 → E (.ok next) trail →
    Q 0 { result := .error .timeout } (first ++ trail)
  decided {budget first trail a} : first.Aside → first.length ≤ 1 → E (.error a) trail →
    Q budget a (first ++ trail)
  stray {budget first trail later next a} : first.Aside → first.length ≤ 1 → E (.ok next) trail →
    Q budget a later → Q (budget + 1) a (first ++ (trail ++ later))
  look {budget first look access later a} : first.Aside → first.length ≤ 1 →
    look.looks = 1 ∧ look.taken = [] ∧ look.length ≤ 2 → access.Aside ∧ access.length = 1 →
    Q budget a later → Q (budget + 1) a (first ++ (look ++ (access ++ later)))

theorem conducts_unread_any (reading : Option Nat) : Conducts m I (m.unread reading)
    (reading.elim .looking (.reading · 0)) fun r trail q => trail.Aside ∧ trail.length ≤ 1 ∧
      ((∃ rout, r = some rout ∧ q = .pending rout) ∨ r = none ∧ q = .looking) := by
  cases reading with
  | none => exact .pure ⟨⟨rfl, rfl⟩, Nat.zero_le _, .inr ⟨rfl, rfl⟩⟩
  | some rout =>
    refine (conducts_unread hI hring rout).mono ?_
    rintro r trail q ⟨haside, hlength, hr⟩
    exact ⟨haside, hlength.le, hr.imp_left fun h => ⟨rout, h⟩⟩

theorem conducts_collect_of {E : Except Attempt Nat → Trail → Prop} {Q : Nat → Attempt → Trail → Prop}
    {opcode : UInt32} {room : Nat} (rules : CollectRules E Q)
    (htake : ∀ rout, Conducts m I (m.takeResponse opcode room rout) (.pending rout) fun result trail q =>
      E result trail ∧ ∀ next, result = .ok next → q = .reading next 0)
    (budget : Nat) (reading : Option Nat) :
    Conducts m I (m.collect opcode room budget reading) (reading.elim .looking (.reading · 0))
      fun a trail _ => Q budget a trail := by
  -- a response or a look uses up one unit of the budget, wherever the cursor stands
  induction budget generalizing reading with
  | zero =>
    unfold collect
    refine (conducts_unread_any hI hring reading).bind ?_
    rintro r first q ⟨hfirst, hlength, ⟨rout, rfl, rfl⟩ | ⟨rfl, rfl⟩⟩
    · refine (htake rout).bind ?_
      rintro (a | next) trail q ⟨htrail, -⟩
      · refine .pure ?_
        rw [List.append_nil]
        exact rules.decided hfirst hlength htrail
      · refine (conducts_log m I _ _).bind ?_
        rintro _ _ _ ⟨rfl, rfl⟩
        refine .pure ?_
        rw [List.append_nil, List.append_nil]
        exact rules.onlyStrays hfirst hlength htrail
    · refine (conducts_log m I _ _).bind ?_
      rintro _ _ _ ⟨rfl, rfl⟩
      refine .pure ?_
      rw [List.append_nil, List.append_nil]
      exact rules.nothing hfirst hlength
  | succ budget ih =>
    rw [collect]
    refine (conducts_unread_any hI hring reading).bind ?_
    rintro r first q ⟨hfirst, hlength, ⟨rout, rfl, rfl⟩ | ⟨rfl, rfl⟩⟩
    · refine (htake rout).bind ?_
      rintro (a | next) trail q ⟨htrail, hq⟩
      · refine .pure ?_
        rw [List.append_nil]
        exact rules.decided hfirst hlength htrail
      · obtain rfl := hq next rfl
        exact (ih (some next)).mono fun a later q hlater => rules.stray hfirst hlength htrail hlater
    · refine (conducts_takeDoorbell hI .looking fun _ => .quiet).bind ?_
      rintro raised look _ ⟨hlooks, htaken, hlook, rfl⟩
      cases raised with
      | true =>
        refine (conducts_responseCursor hI hring).bind ?_
        rintro rout access _ ⟨haccess, hone, rfl⟩
        refine (ih (some rout)).mono fun a later q hlater => ?_
        exact rules.look hfirst hlength ⟨hlooks, htaken, hlook⟩ ⟨haccess, hone⟩ hlater
      | false =>
        refine (conducts_delay hI (.sleep _)).bind ?_
        rintro _ _ _ ⟨rfl, rfl⟩
        refine (ih none).mono fun a later q hlater => ?_
        exact rules.look hfirst hlength ⟨hlooks, htaken, hlook⟩ ⟨⟨rfl, rfl⟩, rfl⟩ hlater

/-- What becomes of an attempt to collect an answer, with so many units left to spend. -/
structure Collects (m : Mailbox ρ) (budget : Nat) (a : Attempt) (trail : Trail) (h : Haul) : Prop where
  taken : trail.taken = h.words
  spent : trail.looks + m.strays h.headers ≤ budget + 1
  accesses : trail.length ≤ (budget + 1) * m.responseCost
  gaveUp : h.cut ≠ none → m.GivesUp trail.accesses
  answered : a.result ≠ .error .timeout → ∃ x ∈ h.headers, x.answers m.client m.transaction = true

section Units

omit [RegisterBlock ρ] hI hring

variable {budget : Nat} {a : Attempt} {first trail later : Trail} {h : Haul}

theorem collects_nothing (m : Mailbox ρ) (budget : Nat) (hfirst : first.Aside)
    (hlength : first.length ≤ 1) : m.Collects budget { result := .error .timeout } first {} where
  taken := hfirst.2
  spent := by
    rw [hfirst.1]
    exact Nat.zero_le _
  accesses := by
    rw [Nat.succ_mul]
    unfold responseCost
    omega
  gaveUp h := absurd rfl h
  answered h := absurd rfl h

/-- A response that decides the attempt costs one unit at most. -/
theorem Decides.collects (hdecides : m.Decides a trail h) (htakes : m.Takes h.words trail)
    (hfirst : first.Aside) (hlength : first.length ≤ 1) : m.Collects budget a (first ++ trail) h where
  taken := by rw [hfirst.taken, htakes.taken]
  spent := by
    have hstrays : m.strays h.headers ≤ h.headers.length := List.countP_le_length
    rw [hfirst.looks, htakes.looks]
    rw [hdecides.one] at hstrays
    omega
  accesses := by
    have htrail := htakes.length
    rw [List.length_append, Nat.succ_mul]
    omega
  gaveUp hcut := (hdecides.gaveUp hcut).after
  answered := hdecides.answered

theorem Collects.stray {r : Response} (hlater : m.Collects budget a later h)
    (htakes : m.Takes r.words trail) (hfirst : first.Aside) (hlength : first.length ≤ 1) :
    m.Collects (budget + 1) a (first ++ (trail ++ later)) (h.cons r) where
  taken := by rw [hfirst.taken, taken_append, htakes.taken, hlater.taken, Haul.words_cons]
  spent := by
    have hstrays : m.strays (h.cons r).headers ≤ m.strays h.headers + 1 := by
      rw [Haul.headers_cons, strays, List.countP_cons]
      split <;> simp [strays]
    have hspent := hlater.spent
    rw [hfirst.looks, looks_append, htakes.looks]
    omega
  accesses := by
    have htrail := htakes.length
    have haccesses := hlater.accesses
    rw [List.length_append, List.length_append, Nat.succ_mul (budget + 1)]
    omega
  gaveUp hcut := .after (.after (hlater.gaveUp hcut))
  answered hresult := by
    obtain ⟨x, hx, hanswers⟩ := hlater.answered hresult
    exact ⟨x, List.mem_cons_of_mem _ hx, hanswers⟩

theorem Collects.look {look access : Trail} (hlater : m.Collects budget a later h)
    (hlook : look.looks = 1 ∧ look.taken = [] ∧ look.length ≤ 2)
    (haccess : access.Aside ∧ access.length = 1) (hfirst : first.Aside) (hlength : first.length ≤ 1) :
    m.Collects (budget + 1) a (first ++ (look ++ (access ++ later))) h where
  taken := by
    rw [hfirst.taken, taken_append, hlook.2.1, haccess.1.taken, hlater.taken, List.nil_append]
  spent := by
    have hspent := hlater.spent
    rw [hfirst.looks, looks_append, hlook.1, haccess.1.looks]
    omega
  accesses := by
    have haccesses := hlater.accesses
    rw [List.length_append, List.length_append, List.length_append, Nat.succ_mul (budget + 1)]
    unfold responseCost at *
    omega
  gaveUp hcut := .after (.after (.after (hlater.gaveUp hcut)))
  answered := hlater.answered

end Units

omit [RegisterBlock ρ] hI hring in
theorem collectRules_collects (m : Mailbox ρ) : CollectRules
    (fun result trail => (∃ next r, result = .ok next ∧ m.Takes (Response.words r) trail) ∨
      ∃ a h, result = .error a ∧ m.Takes (Haul.words h) trail ∧ m.Decides a trail h)
    fun budget a trail => ∃ h, m.Collects budget a trail h where
  nothing hfirst hlength := ⟨{}, collects_nothing m 0 hfirst hlength⟩
  onlyStrays := by
    rintro first trail next hfirst hlength (⟨_, r, ⟨⟩, htakes⟩ | ⟨a, h, ⟨⟩, -⟩)
    have hwords : m.Takes (Haul.words { whole := [r] }) trail := by
      simpa [Haul.words, Response.wire] using htakes
    have hdecides : m.Decides { result := .error .timeout } trail { whole := [r] } :=
      ⟨rfl, fun h => absurd rfl h, fun h => absurd rfl h⟩
    exact ⟨{ whole := [r] }, hdecides.collects hwords hfirst hlength⟩
  decided := by
    rintro budget first trail a hfirst hlength (⟨next, r, ⟨⟩, -⟩ | ⟨_, h, ⟨⟩, htakes, hdecides⟩)
    exact ⟨h, hdecides.collects htakes hfirst hlength⟩
  stray := by
    rintro budget first trail later next a hfirst hlength (⟨_, r, ⟨⟩, htakes⟩ | ⟨a, h, ⟨⟩, -⟩) ⟨h, hlater⟩
    exact ⟨h.cons r, hlater.stray htakes hfirst hlength⟩
  look := by
    rintro budget first look access later a hfirst hlength hlook haccess ⟨h, hlater⟩
    exact ⟨h, hlater.look hlook haccess hfirst hlength⟩

theorem conducts_collect (opcode : UInt32) (room budget : Nat) (reading : Option Nat) :
    Conducts m I (m.collect opcode room budget reading) (reading.elim .looking (.reading · 0))
      fun a trail _ => ∃ h, m.Collects budget a trail h := by
  refine conducts_collect_of hI hring (collectRules_collects m) (fun rout => ?_) budget reading
  refine (conducts_takeResponse_decides hI hring opcode room rout).mono ?_
  rintro result trail q (⟨next, r, rfl, rfl, htakes⟩ | ⟨a, h, rfl, hdecides⟩)
  · exact ⟨.inl ⟨next, r, rfl, htakes⟩, fun _ hnext => Except.ok.inj hnext ▸ rfl⟩
  · exact ⟨.inr ⟨a, h, rfl, hdecides⟩, nofun⟩

end Collecting

end Mailbox

end RemoteUpdate
