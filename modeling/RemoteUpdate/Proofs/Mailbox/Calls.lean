import RemoteUpdate.Proofs.Mailbox.Accesses

/-!
# Calls

What a whole call does: an attempt at a command, a command sent again and again, responses dropped or
received. A call that is made of several attempts begins anew with each of them, so its accesses are a
`Course`: one path after the other, each from a stage at which the driver may begin.
-/

namespace RemoteUpdate.Mailbox

variable {ρ α β : Type} [RegisterBlock ρ] {m : Mailbox ρ} {I : ρ → Prop} {p q : Stage}

/-! ### Courses -/

/-- The block has served the driver in one go after the other, each from a stage of this kind. -/
inductive Course (m : Mailbox ρ) (Opens : Stage → Prop) : ρ → List Trail → ρ → Prop where
  | nil (s : ρ) : Course m Opens s [] s
  | cons {p q : Stage} {s t u : ρ} {trail : Trail} {trails : List Trail} (opens : Opens p)
      (path : Path m p s trail q t) (rest : Course m Opens t trails u) :
      Course m Opens s (trail :: trails) u

section Courses

variable {Opens : Stage → Prop} {s t u : ρ} {trails later : List Trail}

theorem Course.trans (h : Course m Opens s trails t) (h' : Course m Opens t later u) :
    Course m Opens s (trails ++ later) u := by
  induction h with
  | nil => exact h'
  | cons opens path rest ih => exact .cons opens path (ih h')

/-- What every move keeps, and what still holds when the driver begins anew, a course keeps. -/
theorem Course.keeps {P : Stage → Trail → ρ → Prop}
    (step : ∀ {p a q past s t}, Move m p a q → Serves a s t → P p past s → P q (past ++ [(p, a)]) t)
    (reopen : ∀ {p q past s}, Opens q → P p past s → P q past s) (h : Course m Opens s trails t)
    (past : Trail) (hp : P p past s) : ∃ q, P q (past ++ trails.flatten) t := by
  induction h generalizing p past with
  | nil s => exact ⟨p, by rwa [List.flatten_nil, List.append_nil]⟩
  | cons opens path rest ih =>
    obtain ⟨q, hq⟩ := ih _ (path.keeps step past (reopen opens hp))
    exact ⟨q, by rwa [List.flatten_cons, ← List.append_assoc]⟩

theorem Course.recorded {m : Mailbox (Recorder ρ)} {r r' : Recorder ρ}
    (h : Course m Opens r trails r') :
    r'.accesses.toList = r.accesses.toList ++ Trail.accesses trails.flatten := by
  induction h with
  | nil => exact (List.append_nil _).symm
  | cons opens path rest ih =>
    rw [ih, path.recorded, List.flatten_cons, accesses_append, List.append_assoc]

/-- From every state with the invariant the program returns, with the invariant, and what it does is a
course of this kind. -/
def Undertakes (m : Mailbox ρ) (I : ρ → Prop) (Opens : Stage → Prop) (x : RegisterM ρ α)
    (Q : α → List Trail → Prop) : Prop :=
  ∀ s, I s → ∃ a t trails, Returns x s a t ∧ I t ∧ Course m Opens s trails t ∧ Q a trails

variable {Q : α → List Trail → Prop} {R : β → List Trail → Prop}

theorem Undertakes.pure {a : α} (h : Q a []) : Undertakes m I Opens (Pure.pure a) Q := by
  intro s hs
  exact ⟨a, s, [], .pure a s, hs, .nil s, h⟩

theorem Undertakes.bind {x : RegisterM ρ α} {f : α → RegisterM ρ β} (h : Undertakes m I Opens x Q)
    (h' : ∀ a trails, Q a trails →
      Undertakes m I Opens (f a) fun b later => R b (trails ++ later)) :
    Undertakes m I Opens (x >>= f) R := by
  intro s hs
  obtain ⟨a, t, trails, hx, ht, hcourse, ha⟩ := h s hs
  obtain ⟨b, u, later, hf, hu, hcourse', hb⟩ := h' a trails ha t ht
  exact ⟨b, u, trails ++ later, hx.bind hf, hu, hcourse.trans hcourse', hb⟩

theorem Undertakes.mono {x : RegisterM ρ α} {Q' : α → List Trail → Prop}
    (h : Undertakes m I Opens x Q) (h' : ∀ a trails, Q a trails → Q' a trails) :
    Undertakes m I Opens x Q' := by
  intro s hs
  obtain ⟨a, t, trails, hx, ht, hcourse, ha⟩ := h s hs
  exact ⟨a, t, trails, hx, ht, hcourse, h' a trails ha⟩

protected theorem Undertakes.discard {x : RegisterM ρ α} (h : Undertakes m I Opens x Q) :
    Undertakes m I Opens (discard x) fun _ trails => ∃ a, Q a trails := by
  intro s hs
  obtain ⟨a, t, trails, hx, ht, hcourse, ha⟩ := h s hs
  exact ⟨(), t, trails, hx.discard, ht, hcourse, a, ha⟩

theorem undertakes_log (m : Mailbox ρ) (I : ρ → Prop) (Opens : Stage → Prop) (e : MailboxEvent) :
    Undertakes m I Opens (m.log e) fun _ trails => trails = [] := by
  intro s hs
  exact ⟨(), s, [], .emit _ s, hs, .nil s, rfl⟩

theorem Conducts.undertakes {x : RegisterM ρ α} {Q : α → Trail → Stage → Prop}
    (h : Conducts m I x p Q) (hp : Opens p) : Undertakes m I Opens x fun a trails =>
      ∃ trail q, trails = [trail] ∧ Q a trail q := by
  intro s hs
  obtain ⟨a, t, trail, q, hx, ht, hpath, ha⟩ := h s hs
  exact ⟨a, t, [trail], hx, ht, .cons hp hpath (.nil t), trail, q, rfl, ha⟩

end Courses

/-! ### Attempts -/

def attemptCost (m : Mailbox ρ) (arguments : Nat) : Nat :=
  (arguments + 1) * m.wordCost + 2 + (m.timing.doorbellPolls + 1) * m.responseCost

def outset (urgent : Bool) : Stage :=
  if urgent then .calling else .idle

/-- What is taken out of the response ring is a haul, and if it ends within a response, the driver has given
up waiting for the rest. -/
def Framed (m : Mailbox ρ) (trail : Trail) : Prop :=
  ∃ h : Haul, trail.taken = h.words ∧ (h.cut ≠ none → m.GivesUp trail.accesses)

/-- What an attempt comes to, and what it has cost. -/
structure Accounted (m : Mailbox ρ) (opcode : UInt32) (arguments : List UInt32) (urgent : Bool)
    (a : Attempt) (trail : Trail) (h : Haul) : Prop where
  taken : trail.taken = h.words
  spent : trail.looks + m.strays h.headers ≤ m.timing.doorbellPolls + 1
  accesses : trail.length ≤ m.attemptCost arguments.length
  gaveUp : h.cut ≠ none → m.GivesUp trail.accesses
  /-- An attempt that is not answered runs out of time, if its command may be sent. -/
  unanswered : urgent = false → opcode ≤ maxOpcode → arguments.length ≤ maxArguments →
    (∀ x ∈ h.headers, x.answers m.client m.transaction = false) → a.result = .error .timeout

omit [RegisterBlock ρ] in
theorem Accounted.framed {opcode : UInt32} {arguments : List UInt32} {urgent : Bool} {a : Attempt}
    {trail : Trail} {h : Haul} (ha : m.Accounted opcode arguments urgent a trail h) : m.Framed trail :=
  ⟨h, ha.taken, ha.gaveUp⟩

/-- An attempt that has been made, with its accesses and its haul. -/
structure Try where
  attempt : Attempt
  trail : Trail
  haul : Haul

/-- The accesses of an attempt, and those of the pause after it if it may be repeated. -/
def Try.trails (m : Mailbox ρ) (x : Try) : List Trail :=
  match x.attempt.result with
  | .ok _ => [x.trail]
  | .error e => if e.isTransient then [x.trail, [(.idle, .delay m.timing.backoff)]] else [x.trail]

/-- These attempts have been made one after the other, at most so many, and `A` holds of each. The last of
them decides, and those before it may be repeated. Each leaves its words at the start of the buffer. -/
structure Retried (A : Attempt → Trail → Haul → Prop) (most : Nat) {n : Nat} (buffer : Vector UInt32 n)
    (tries : List Try) (r : Except MailboxError Nat × Vector UInt32 n) : Prop where
  count : tries.length ≤ most
  each : ∀ x ∈ tries, A x.attempt x.trail x.haul
  result : tries.getLast?.map (·.attempt.result) = some r.1
  again : ∀ x ∈ tries.dropLast, ∃ e, x.attempt.result = .error e ∧ e.isTransient = true
  buffer : r.2 = tries.foldl (fun buffer x => overlay buffer x.attempt.copied) buffer

/-- These attempts have been made one after the other, at most so many, and the last of them decides. -/
structure Repeated (m : Mailbox ρ) (opcode : UInt32) (arguments : List UInt32) (urgent : Bool) (most : Nat)
    (tries : List Try) (result : Except MailboxError Nat) : Prop where
  count : tries.length ≤ most
  accounted : ∀ x ∈ tries, m.Accounted opcode arguments urgent x.attempt x.trail x.haul
  result : tries.getLast?.map (·.attempt.result) = some result

section Retries

omit [RegisterBlock ρ]

variable {opcode : UInt32} {arguments : List UInt32} {urgent : Bool} {most : Nat} {x : Try}
  {tries : List Try} {result : Except MailboxError Nat}

section

variable {A : Attempt → Trail → Haul → Prop} {n : Nat} {buffer : Vector UInt32 n}
  {r : Except MailboxError Nat × Vector UInt32 n}

theorem Retried.one (hx : A x.attempt x.trail x.haul) : Retried A (most + 1) buffer [x]
    (x.attempt.result, overlay buffer x.attempt.copied) where
  count := Nat.succ_le_succ (Nat.zero_le most)
  each := List.forall_mem_singleton.mpr hx
  result := rfl
  again := by simp
  buffer := rfl

theorem Retried.more {e : MailboxError} (hx : A x.attempt x.trail x.haul)
    (hagain : x.attempt.result = .error e ∧ e.isTransient = true)
    (h : Retried A most (overlay buffer x.attempt.copied) tries r) :
    Retried A (most + 1) buffer (x :: tries) r where
  count := Nat.succ_le_succ h.count
  each := List.forall_mem_cons.mpr ⟨hx, h.each⟩
  result := by
    have hresult := h.result
    rw [List.getLast?_cons, Option.map_some]
    cases hlast : tries.getLast? with
    | none => simp [hlast] at hresult
    | some y =>
      rw [hlast] at hresult
      exact hresult
  again := by
    cases tries with
    | nil => simp
    | cons y tries =>
      rw [List.dropLast_cons_cons]
      exact List.forall_mem_cons.mpr ⟨⟨e, hagain⟩, h.again⟩
  buffer := h.buffer

end

/-- If none of the attempts is answered, time runs out. -/
theorem Repeated.unanswered (h : m.Repeated opcode arguments false most tries result)
    (hopcode : opcode ≤ maxOpcode) (harguments : arguments.length ≤ maxArguments)
    (hstrays : ∀ x ∈ tries, ∀ header ∈ x.haul.headers, header.answers m.client m.transaction = false) :
    result = .error .timeout := by
  obtain ⟨x, hx, hresult⟩ := Option.map_eq_some_iff.mp h.result
  have hmem : x ∈ tries := List.mem_of_getLast? hx
  rw [← hresult]
  exact (h.accounted x hmem).unanswered rfl hopcode harguments (hstrays x hmem)

theorem framed_nothing (m : Mailbox ρ) {trail : Trail} (h : trail.taken = []) : m.Framed trail :=
  ⟨{}, h, fun h => absurd rfl h⟩

theorem Repeated.framed (h : m.Repeated opcode arguments urgent most tries result) :
    ∀ trail ∈ tries.flatMap (Try.trails m), m.Framed trail := by
  intro trail htrail
  obtain ⟨x, hx, hmem⟩ := List.mem_flatMap.mp htrail
  have hframed : m.Framed x.trail := (h.accounted x hx).framed
  unfold Try.trails at hmem
  split at hmem
  · exact List.mem_singleton.mp hmem ▸ hframed
  · split at hmem
    · rcases List.mem_cons.mp hmem with rfl | hmem
      · exact hframed
      · exact List.mem_singleton.mp hmem ▸ framed_nothing m rfl
    · exact List.mem_singleton.mp hmem ▸ hframed

end Retries

section Programs

variable (hI : Responsive I)
include hI

theorem conducts_sendUrgent (opcode : UInt32) :
    Conducts m I (m.sendUrgent opcode).run .calling fun _ trail _ =>
      trail.looks ≤ m.timing.doorbellPolls ∧ trail.taken = [] ∧
        trail.length ≤ 3 * m.timing.doorbellPolls + 4 := by
  have calling : ∀ a : Access, Trail.Aside [(.calling, a)] := fun _ => ⟨rfl, rfl⟩
  unfold sendUrgent
  refine (conducts_read hI (fun _ => .calling) .status).lift_bind ?_
  rintro before _ _ ⟨rfl, rfl⟩
  refine (conducts_write hI (.call opcode)).lift_bind ?_
  rintro _ _ _ ⟨rfl, rfl⟩
  refine (conducts_write hI .shout).lift_bind ?_
  rintro _ _ _ ⟨rfl, rfl⟩
  refine (conducts_waitDoorbell hI _).run_bind ?_ ?_
  · rintro _ trail q ⟨hlooks, htaken, hlength, ⟨-, rfl⟩ | ⟨⟨⟩⟩⟩
    refine (conducts_read hI (fun _ => .cleared) .confirm).lift_bind ?_
    rintro after _ _ ⟨rfl, rfl⟩
    -- whatever the status says, it is logged, and nothing more is read or written
    have said : ∀ (e : MailboxEvent) (r : Except MailboxError Nat),
        Conducts m I (do m.log e; ExceptT.mk (pure r) : MailboxM ρ Nat).run .cleared
          fun _ later _ => later = [] := by
      intro e r
      refine (conducts_log m I _ e).lift_bind ?_
      rintro _ _ _ ⟨rfl, -⟩
      exact .pure rfl
    have ends : Conducts m I (if before &&& urgentAcknowledge = after &&& urgentAcknowledge then do
          m.log (.urgentIgnored opcode)
          throw .notAcknowledged
        else do
          m.log (.urgentAcknowledged opcode)
          return 0 : MailboxM ρ Nat).run .cleared fun _ later _ => later = [] := by
      split
      · exact said _ (.error .notAcknowledged)
      · exact said _ (.ok 0)
    refine ends.mono ?_
    rintro r _ q rfl
    refine ⟨?_, ?_, ?_⟩
    · rw [(calling _).looks, (calling _).looks, (calling _).looks, looks_append]
      exact hlooks
    · rw [(calling _).taken, (calling _).taken, (calling _).taken, taken_append, htaken]
      rfl
    · simp only [List.length_append, List.length_cons, List.length_nil]
      omega
  · rintro e trail q ⟨hlooks, htaken, hlength, -⟩
    refine ⟨?_, ?_, ?_⟩
    · rwa [(calling _).looks, (calling _).looks, (calling _).looks]
    · rwa [(calling _).taken, (calling _).taken, (calling _).taken]
    · simp only [List.length_append, List.length_cons, List.length_nil]
      omega

theorem conducts_attempt_urgent (opcode : UInt32) (arguments : List UInt32) (room : Nat) :
    Conducts m I (m.attempt opcode arguments true room) .calling fun a trail _ =>
      m.Accounted opcode arguments true a trail {} := by
  unfold attempt
  rw [if_pos rfl]
  refine (conducts_sendUrgent hI opcode).bind ?_
  rintro r trail q ⟨hlooks, htaken, hlength⟩
  refine .pure ?_
  rw [List.append_nil]
  refine ⟨htaken, hlooks.trans (Nat.le_succ _), ?_, fun h => absurd rfl h, nofun⟩
  have hcost : (m.timing.doorbellPolls + 1) * 4 ≤ (m.timing.doorbellPolls + 1) * m.responseCost :=
    Nat.mul_le_mul_left _ (Nat.le_add_left 4 _)
  unfold attemptCost
  omega

/-! ### Waiting, receiving and draining -/

section Responses

variable (hresponse : m.responseRing.capacity ≠ 0)
include hresponse

theorem conducts_waitResponse : Conducts m I m.waitResponse.run .looking fun _ trail _ =>
    trail.taken = [] := by
  unfold waitResponse
  refine (conducts_waitDoorbell hI _).run_bind ?_ ?_
  · rintro _ trail q ⟨-, htaken, -, ⟨-, rfl⟩ | ⟨⟨⟩⟩⟩
    refine (conducts_responseCursor hI hresponse).lift_bind ?_
    rintro rout access _ ⟨haside, -, rfl⟩
    refine .lift ((conducts_responsePending hI hresponse .looking fun _ => .drained).mono ?_)
    rintro pending _ q ⟨value, rfl, -⟩
    rw [taken_append, htaken, haside.taken]
    rfl
  · rintro e trail q ⟨-, htaken, -⟩
    exact htaken

theorem conducts_receive (room : Nat) : Conducts m I (m.receive room) .looking fun words trail _ =>
    trail.taken = words := by
  -- the caller sets how much is read, whether or not it ends with a response
  have loop : ∀ room rout, Conducts m I (receive.go m room rout) (.reading rout 0)
      fun words trail _ => trail.taken = words := by
    intro room
    induction room with
    | zero => exact fun rout => .pure rfl
    | succ room ih =>
      intro rout
      unfold receive.go
      refine (conducts_responsePending hI hresponse .looking fun _ => .drained).bind ?_
      rintro pending _ _ ⟨value, rfl, ⟨rfl, rfl⟩ | ⟨rfl, -, rfl⟩⟩
      · refine (conducts_readWord hI rout).bind ?_
        rintro ⟨word, next⟩ trail _ ⟨-, htaken, -, rfl⟩
        refine (ih next).bind ?_
        rintro words later q hlater
        refine .pure ?_
        rw [List.append_nil, taken_append, taken_append, htaken, hlater]
        rfl
      · exact .pure rfl
  unfold receive
  refine (conducts_takeDoorbell hI .cleared fun _ => .pass).discard.bind ?_
  rintro _ trail _ ⟨raised, -, htaken, -, rfl⟩
  rw [ite_self]
  refine (conducts_responseCursor hI hresponse).bind ?_
  rintro rout access _ ⟨haside, -, rfl⟩
  refine (loop room rout).mono ?_
  rintro words later q hlater
  rw [taken_append, htaken, haside.taken, hlater, List.nil_append]

theorem conducts_drain (limit : Nat) : Conducts m I (m.drain limit) .looking fun _ trail _ =>
    m.Framed trail := by
  -- the count of the words read so far is only reported, so it is any number here
  have loop : ∀ limit done rout, Conducts m I (drain.go m limit done rout) (.reading rout 0)
      fun _ trail _ => m.Framed trail := by
    intro limit
    induction limit with
    | zero => exact fun done rout => .pure (framed_nothing m rfl)
    | succ limit ih =>
      intro done rout
      unfold drain.go
      refine (conducts_responsePending hI hresponse .looking fun _ => .drained).bind ?_
      rintro pending _ _ ⟨value, rfl, ⟨rfl, rfl⟩ | ⟨rfl, -, rfl⟩⟩
      · refine (conducts_readWord hI rout).bind ?_
        rintro ⟨word, next⟩ trail _ ⟨-, htaken, -, rfl⟩
        refine (conducts_readData hI hresponse next (ResponseHeader.mk word).length).bind ?_
        rintro ⟨data, last⟩ later q ⟨-, hdata, -, ⟨rout', rfl, hcount, rfl⟩ | ⟨rfl, hcount, hgaveUp⟩⟩
        · let r : Response := ⟨⟨word⟩, data, hcount⟩
          refine (conducts_log m I _ _).bind ?_
          rintro _ _ _ ⟨rfl, rfl⟩
          refine (ih (done + 1) rout').mono ?_
          rintro _ rest q ⟨h, hrest, hcut⟩
          refine ⟨h.cons r, ?_, fun hc => .after (.after (.after (.after (hcut hc))))⟩
          rw [Haul.words_cons, taken_append, taken_append, taken_append, htaken, hdata, List.nil_append,
            hrest]
          rfl
        · refine .pure ⟨⟨[], some (⟨word⟩, data), ?_⟩, ?_, fun _ => ?_⟩
          · rintro _ _ ⟨⟩
            exact hcount
          · rw [List.append_nil, taken_append, taken_append, htaken, hdata]
            rfl
          · exact .after (.after hgaveUp.before)
      · exact .pure (framed_nothing m rfl)
  unfold drain
  refine (conducts_takeDoorbell hI .cleared fun _ => .pass).discard.bind ?_
  rintro _ trail _ ⟨raised, -, htaken, -, rfl⟩
  rw [ite_self]
  refine (conducts_responseCursor hI hresponse).bind ?_
  rintro rout access _ ⟨haside, -, rfl⟩
  refine (loop limit 0 rout).mono ?_
  rintro done later q ⟨h, hlater, hcut⟩
  refine ⟨h, ?_, fun hc => .after (.after (hcut hc))⟩
  rw [taken_append, htaken, haside.taken, hlater, List.nil_append]

end Responses

/-! ### Sending and collecting -/

variable (hcommand : m.commandRing.capacity ≠ 0) (hresponse : m.responseRing.capacity ≠ 0)
include hcommand hresponse

theorem conducts_attempt_ordinary (opcode : UInt32) (arguments : List UInt32) (room : Nat) :
    Conducts m I (m.attempt opcode arguments false room) .idle fun a trail _ =>
      ∃ h, m.Accounted opcode arguments false a trail h := by
  unfold attempt
  rw [if_neg Bool.false_ne_true]
  refine (conducts_sendCommand hI hcommand opcode false arguments).bind ?_
  rintro r trail q ⟨haside, hlength, hr⟩
  rcases hr with ⟨rfl, rfl⟩ | hr
  · refine (conducts_collect hI hresponse opcode room _ none).mono ?_
    rintro a later q ⟨h, hlater⟩
    refine ⟨h, ?_, ?_, ?_, ?_, ?_⟩
    · rw [haside.taken, hlater.taken]
    · rw [haside.looks]
      exact hlater.spent
    · have haccesses := hlater.accesses
      rw [List.length_append]
      unfold attemptCost
      omega
    · intro hcut
      exact (hlater.gaveUp hcut).after
    · intro _ _ _ hstrays
      by_contra hresult
      obtain ⟨x, hx, hanswers⟩ := hlater.answered hresult
      rw [hstrays x hx] at hanswers
      exact Bool.false_ne_true hanswers
  · -- the command has not been sent, and nothing is collected
    have failed : ∀ e, e = .timeout ∨ maxOpcode < opcode ∨ maxArguments < arguments.length →
        m.Accounted opcode arguments false { result := .error e } trail {} := by
      intro e hwhy
      refine ⟨haside.2, ?_, ?_, fun h => absurd rfl h, ?_⟩
      · rw [haside.1]
        exact Nat.zero_le _
      · unfold attemptCost
        omega
      · intro _ hopcode harguments _
        rcases hwhy with rfl | hwhy | hwhy
        · rfl
        · exact absurd hwhy (UInt32.not_lt.mpr hopcode)
        · exact absurd hwhy (Nat.not_lt.mpr harguments)
    rcases hr with rfl | ⟨rfl, hwhy⟩
    · refine .pure ⟨{}, ?_⟩
      rw [List.append_nil]
      exact failed _ (.inl rfl)
    · refine .pure ⟨{}, ?_⟩
      rw [List.append_nil]
      exact failed _ (.inr hwhy)

theorem conducts_attempt (opcode : UInt32) (arguments : List UInt32) (urgent : Bool) (room : Nat) :
    Conducts m I (m.attempt opcode arguments urgent room) (outset urgent) fun a trail _ =>
      ∃ h, m.Accounted opcode arguments urgent a trail h := by
  cases urgent with
  | true =>
    refine (conducts_attempt_urgent hI opcode arguments room).mono ?_
    rintro a trail q ha
    exact ⟨{}, ha⟩
  | false => exact conducts_attempt_ordinary hI hcommand hresponse opcode arguments room

section Tries

variable {A : Attempt → Trail → Haul → Prop} {Opens : Stage → Prop} {n : Nat} {opcode : UInt32}
  {arguments : List UInt32} {urgent : Bool}

omit hcommand hresponse in
theorem undertakes_try {most : Nat} (hattempt : Conducts m I (m.attempt opcode arguments urgent n)
      (outset urgent) fun a trail _ => ∃ h, A a trail h)
    (hopens : Opens (outset urgent)) (hidle : Opens .idle) (number : Nat) (buffer : Vector UInt32 n)
    (again : MailboxError → Vector UInt32 n → RegisterM ρ (Except MailboxError Nat × Vector UInt32 n))
    (hagain : ∀ e buffer, Undertakes m I Opens (again e buffer) fun r later =>
      r = (.error e, buffer) ∧ later = [] ∨
        ∃ tries, Retried A most buffer tries r ∧ later = tries.flatMap (Try.trails m)) :
    Undertakes m I Opens (do
      let a ← m.attempt opcode arguments urgent n
      let buffer := overlay buffer a.copied
      match a.result with
      | .ok count => return (.ok count, buffer)
      | .error e =>
        unless e.isTransient do return (.error e, buffer)
        m.log (.attemptFailed opcode number e)
        m.delay m.timing.backoff
        again e buffer) fun r trails =>
          ∃ tries, Retried A (most + 1) buffer tries r ∧ trails = tries.flatMap (Try.trails m) := by
  refine (hattempt.undertakes hopens).bind ?_
  rintro ⟨result, copied⟩ _ ⟨trail, q, rfl, h, ha⟩
  let x : Try := ⟨⟨result, copied⟩, trail, h⟩
  have hone : Retried A (most + 1) buffer [x] (result, overlay buffer copied) := .one ha
  have htrails : [x].flatMap (Try.trails m) = x.trails m := List.flatMap_singleton _ _
  cases result with
  | ok count => exact .pure ⟨[x], hone, htrails.symm⟩
  | error e =>
    -- only after a transient error the pause and the attempts that follow it are part of the course
    cases he : e.isTransient with
    | false =>
      have hx : x.trails m = [trail] := by simp [Try.trails, x, he]
      simp only [he, Bool.false_eq_true, if_false]
      exact .pure ⟨[x], hone, by rw [htrails, hx, List.append_nil]⟩
    | true =>
      have hx : x.trails m = [trail] ++ [[(.idle, .delay m.timing.backoff)]] := by
        simp [Try.trails, x, he]
      simp only [he, if_true]
      refine (undertakes_log m I Opens _).bind ?_
      rintro _ _ rfl
      refine ((conducts_delay hI (.rest _)).undertakes hidle).bind ?_
      rintro _ _ ⟨_, _, rfl, rfl, -⟩
      refine (hagain e (overlay buffer copied)).mono ?_
      rintro r later (⟨rfl, rfl⟩ | ⟨tries, hretried, rfl⟩)
      · exact ⟨[x], hone, by rw [htrails, hx]; rfl⟩
      · refine ⟨x :: tries, .more ha ⟨rfl, he⟩ hretried, ?_⟩
        rw [List.flatMap_cons, hx, List.append_assoc]
        rfl

omit hcommand hresponse in
/-- A command is tried again at most so often as the timing says. What holds of one attempt holds of each. -/
theorem undertakes_send_of (hattempt : Conducts m I (m.attempt opcode arguments urgent n)
      (outset urgent) fun a trail _ => ∃ h, A a trail h)
    (buffer : Vector UInt32 n) (hopens : Opens (outset urgent)) (hidle : Opens .idle) :
    Undertakes m I Opens (m.send opcode arguments urgent buffer) fun r trails =>
      ∃ tries, Retried A (max 1 m.timing.retries) buffer tries r ∧
        trails = tries.flatMap (Try.trails m) := by
  have loop : ∀ more number (buffer : Vector UInt32 n), Undertakes m I Opens
      (send.go m opcode arguments urgent more number buffer) fun r trails =>
        ∃ tries, Retried A (more + 1) buffer tries r ∧ trails = tries.flatMap (Try.trails m) := by
    intro more
    induction more with
    | zero =>
      intro number buffer
      unfold send.go
      refine undertakes_try hI hattempt hopens hidle number buffer
        (fun e buffer => pure (.error e, buffer)) fun e buffer => ?_
      exact .pure (.inl ⟨rfl, rfl⟩)
    | succ more ih =>
      intro number buffer
      unfold send.go
      refine undertakes_try hI hattempt hopens hidle number buffer
        (fun _ => send.go m opcode arguments urgent more (number + 1)) fun e buffer => ?_
      exact (ih _ _).mono fun _ _ => .inr
  have hmost : m.timing.retries - 1 + 1 = max 1 m.timing.retries := by omega
  exact hmost ▸ loop (m.timing.retries - 1) 1 buffer

end Tries

theorem undertakes_send {Opens : Stage → Prop} {n : Nat} (opcode : UInt32) (arguments : List UInt32)
    (urgent : Bool) (buffer : Vector UInt32 n) (hopens : Opens (outset urgent)) (hidle : Opens .idle) :
    Undertakes m I Opens (m.send opcode arguments urgent buffer) fun r trails =>
      ∃ tries, m.Repeated opcode arguments urgent (max 1 m.timing.retries) tries r.1 ∧
        trails = tries.flatMap (Try.trails m) := by
  refine (undertakes_send_of hI (conducts_attempt hI hcommand hresponse opcode arguments urgent n) buffer
    hopens hidle).mono ?_
  rintro r trails ⟨tries, hretried, rfl⟩
  exact ⟨tries, ⟨hretried.count, hretried.each, hretried.result⟩, rfl⟩

end Programs

/-! ### Errands -/

/-- What the driver may be asked for, urgent commands apart. -/
inductive Errand where
  | attempt (opcode : UInt32) (arguments : List UInt32) (room : Nat)
  | send (opcode : UInt32) (arguments : List UInt32) (room : Nat)
  | sendOnly (opcode : UInt32) (indirect : Bool) (arguments : List UInt32)
  | wait
  | receive (room : Nat)
  | drain (limit : Nat)

namespace Errand

/-- The driver does it, whatever comes of it. -/
def perform (m : Mailbox ρ) : Errand → RegisterM ρ Unit
  | .attempt opcode arguments room => discard (m.attempt opcode arguments false room)
  | .send opcode arguments room => discard (m.send opcode arguments false (Vector.replicate room 0))
  | .sendOnly opcode indirect arguments => discard (m.sendCommand opcode indirect arguments).run
  | .wait => discard m.waitResponse.run
  | .receive room => discard (m.receive room)
  | .drain limit => discard (m.drain limit)

def run (m : Mailbox ρ) : List Errand → RegisterM ρ Unit
  | [] => pure ()
  | errand :: errands => do
    errand.perform m
    run m errands

/-- No words are taken out of the response ring as they come. -/
def Framing : Errand → Prop
  | .receive _ => False
  | _ => True

/-- The driver is not in the middle of a command or of a response. -/
def Rests (p : Stage) : Prop :=
  p = .idle ∨ p = .looking

variable (hI : Responsive I) (hcommand : m.commandRing.capacity ≠ 0)
  (hresponse : m.responseRing.capacity ≠ 0)
include hI hcommand hresponse

theorem undertakes_perform (errand : Errand) : Undertakes m I Rests (errand.perform m) fun _ trails =>
    errand.Framing → ∀ trail ∈ trails, m.Framed trail := by
  -- what is done in one go
  have once : ∀ {α : Type} {x : RegisterM ρ α} {p : Stage} {framing : Prop}, Rests p →
      Conducts m I x p (fun _ trail _ => framing → m.Framed trail) →
      Undertakes m I Rests (discard x) fun _ trails => framing → ∀ trail ∈ trails, m.Framed trail := by
    intro α x p framing hp hx
    refine (hx.undertakes hp).discard.mono ?_
    rintro _ _ ⟨_, trail, q, rfl, hframed⟩ hframing
    exact List.forall_mem_singleton.mpr (hframed hframing)
  cases errand with
  | attempt opcode arguments room =>
    refine once (.inl rfl) ((conducts_attempt hI hcommand hresponse opcode arguments false room).mono ?_)
    rintro a trail q ⟨h, ha⟩ -
    exact ha.framed
  | send opcode arguments room =>
    refine (undertakes_send hI hcommand hresponse opcode arguments false _ (.inl rfl)
      (.inl rfl)).discard.mono ?_
    rintro _ _ ⟨_, tries, htries, rfl⟩ -
    exact htries.framed
  | sendOnly opcode indirect arguments =>
    refine once (.inl rfl) ((conducts_sendCommand hI hcommand opcode indirect arguments).mono ?_)
    rintro r trail q ⟨haside, -⟩ -
    exact framed_nothing m haside.2
  | wait =>
    refine once (.inr rfl) ((conducts_waitResponse hI hresponse).mono ?_)
    rintro r trail q htaken -
    exact framed_nothing m htaken
  | receive room =>
    refine once (.inr rfl) ((conducts_receive hI hresponse room).mono ?_)
    rintro words trail q - ⟨⟩
  | drain limit =>
    refine once (.inr rfl) ((conducts_drain hI hresponse limit).mono ?_)
    rintro done trail q hframed -
    exact hframed

/-- Whatever the driver is asked for, it comes to an end. -/
theorem undertakes_run (errands : List Errand) : Undertakes m I Rests (run m errands) fun _ trails =>
    (∀ errand ∈ errands, errand.Framing) → ∀ trail ∈ trails, m.Framed trail := by
  induction errands with
  | nil => exact .pure fun _ _ h => absurd h List.not_mem_nil
  | cons errand errands ih =>
    refine (undertakes_perform hI hcommand hresponse errand).bind ?_
    rintro _ trails htrails
    refine ih.mono ?_
    intro _ later hlater hframing trail htrail
    obtain ⟨hfirst, hrest⟩ := List.forall_mem_cons.mp hframing
    rcases List.mem_append.mp htrail with htrail | htrail
    · exact htrails hfirst trail htrail
    · exact hlater hrest trail htrail

end Errand

end RemoteUpdate.Mailbox
