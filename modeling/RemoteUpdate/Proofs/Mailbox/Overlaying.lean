import RemoteUpdate.Mailbox.Requests
import RemoteUpdate.Proofs.Mailbox.Exchange
import RemoteUpdate.Proofs.Mailbox.Patience

/-!
# What is left in the buffer

The driver tries a command again in the buffer of its caller. The attempt that succeeds puts the data words
of its answer at the start. Behind them the buffer is as the caller had it, unless an attempt before has met
an answer as well, one that was busy, had timed out or was cut short, and had copied more words from it.
-/

namespace RemoteUpdate.Mailbox

variable {ρ : Type} {m : Mailbox ρ} {room : ℕ}

/-! ### One attempt -/

/-- What an attempt leaves in a buffer with so much room, by the words that it takes out of the response ring:
nothing of responses to others, and of the first that answers the data words that there is room for. -/
inductive Delivers (m : Mailbox ρ) (room : ℕ) : Attempt → List UInt32 → Prop where
  | unanswered (e : MailboxError) (h : Haul)
      (others : ∀ x ∈ h.headers, x.answers m.client m.transaction = false) :
      Delivers m room { result := .error e } h.words
  | answered (others : List Response) (r : Response)
      (strays : ∀ x ∈ others, x.header.answers m.client m.transaction = false)
      (answers : r.header.answers m.client m.transaction = true) :
      Delivers m room ⟨resultOfCode r.header.code (r.data.take room).length, r.data.take room⟩
        (Response.wire (others ++ [r]))
  | cut (others : List Response) (header : ResponseHeader) (data : List UInt32)
      (strays : ∀ x ∈ others, x.header.answers m.client m.transaction = false)
      (answers : header.answers m.client m.transaction = true) (short : data.length < header.length) :
      Delivers m room ⟨.error .timeout, data.take room⟩
        (Response.wire others ++ header.word :: data)

theorem Delivers.stray {a : Attempt} {words : List UInt32} {r : Response}
    (hr : r.header.answers m.client m.transaction = false) (h : m.Delivers room a words) :
    m.Delivers room a (r.words ++ words) := by
  have front {others : List Response}
      (hothers : ∀ x ∈ others, x.header.answers m.client m.transaction = false) :
      ∀ x ∈ r :: others, x.header.answers m.client m.transaction = false :=
    List.forall_mem_cons.mpr ⟨hr, hothers⟩
  cases h with
  | unanswered e h others =>
    rw [← Haul.words_cons]
    refine .unanswered e (h.cons r) ?_
    rw [Haul.headers_cons]
    exact List.forall_mem_cons.mpr ⟨hr, others⟩
  | answered others r' strays answers => exact .answered (r :: others) r' (front strays) answers
  | cut others header data strays answers short =>
    rw [← List.append_assoc]
    exact .cut (r :: others) header data (front strays) answers short

theorem Delivers.of_ok {a : Attempt} {words : List UInt32} {count : ℕ} (h : m.Delivers room a words)
    (hok : a.result = .ok count) : a.copied.length = count ∧ ∃ others r,
      words = Response.wire (others ++ [r]) ∧
        (∀ x ∈ others, x.header.answers m.client m.transaction = false) ∧
        r.header.answers m.client m.transaction = true ∧
        ResponseCode.ofValue? r.header.code = some .ok ∧ a.copied = r.data.take room := by
  cases h with
  | unanswered e h others => cases hok
  | cut others header data strays answers short => cases hok
  | answered others r strays answers =>
    have hcode : ResponseCode.ofValue? r.header.code = some .ok ∧ (r.data.take room).length = count := by
      dsimp only at hok
      unfold resultOfCode at hok
      split at hok
      next h => exact ⟨h, Except.ok.inj hok⟩
      all_goals cases hok
    exact ⟨hcode.2, others, r, rfl, strays, answers, hcode.1, rfl⟩

theorem collectRules_delivers (m : Mailbox ρ) (room : ℕ) : CollectRules
    (fun result trail => (∃ next r, result = .ok next ∧
        r.header.answers m.client m.transaction = false ∧ trail.taken = Response.words r) ∨
      ∃ a, result = .error a ∧ m.Delivers room a trail.taken)
    fun _ a trail => m.Delivers room a trail.taken where
  nothing hfirst _ := by
    rw [hfirst.2]
    exact .unanswered .timeout {} (by simp [Haul.headers])
  onlyStrays := by
    rintro first trail next hfirst - (⟨_, r, ⟨⟩, hr, htaken⟩ | ⟨_, ⟨⟩, -⟩)
    rw [hfirst.taken, htaken, ← List.append_nil r.words]
    exact .stray hr (.unanswered .timeout {} (by simp [Haul.headers]))
  decided := by
    rintro budget first trail a hfirst - (⟨_, _, ⟨⟩, -⟩ | ⟨_, ⟨⟩, h⟩)
    rwa [hfirst.taken]
  stray := by
    rintro budget first trail later next a hfirst - (⟨_, r, ⟨⟩, hr, htaken⟩ | ⟨_, ⟨⟩, -⟩) h
    rw [hfirst.taken, taken_append, htaken]
    exact .stray hr h
  look := by
    rintro budget first look access later a hfirst - hlook haccess h
    rwa [hfirst.taken, taken_append, hlook.2.1, haccess.1.taken, List.nil_append]

variable [RegisterBlock ρ] {I : ρ → Prop}

section Attempts

variable (hI : Responsive I) (hcommand : m.commandRing.capacity ≠ 0)
  (hresponse : m.responseRing.capacity ≠ 0)
include hI hresponse

theorem conducts_collect_delivers (opcode : UInt32) (room budget : ℕ) (reading : Option ℕ) :
    Conducts m I (m.collect opcode room budget reading) (reading.elim .looking (.reading · 0))
      fun a trail _ => m.Delivers room a trail.taken := by
  refine conducts_collect_of hI hresponse (collectRules_delivers m room) (fun rout => ?_) budget reading
  refine (conducts_takeResponse hI hresponse opcode room rout).mono ?_
  rintro result trail q ⟨header, data, htakes, h⟩
  rcases h with ⟨hcount, hstray, next, rfl, rfl⟩ | ⟨hcount, hanswers, rfl⟩ | ⟨hcount, -, rfl⟩
  · refine ⟨.inl ⟨next, ⟨header, data, hcount⟩, rfl, hstray, htakes.taken⟩, ?_⟩
    exact fun _ hnext => Except.ok.inj hnext ▸ rfl
  · refine ⟨.inr ⟨_, rfl, ?_⟩, fun _ hnext => by cases hnext⟩
    have hdelivers : m.Delivers room _ (Response.wire ([] ++ [⟨header, data, hcount⟩])) :=
      .answered [] ⟨header, data, hcount⟩ (by simp) hanswers
    rw [htakes.taken]
    simpa [Response.wire, Response.words] using hdelivers
  · refine ⟨.inr ⟨_, rfl, ?_⟩, fun _ hnext => by cases hnext⟩
    rw [htakes.taken]
    cases hanswers : header.answers m.client m.transaction with
    | true => exact .cut [] header data (by simp) hanswers hcount
    | false =>
      have hshort : ∀ header' words, some (header, data) = some (header', words) →
          words.length < header'.length := by
        rintro _ _ ⟨⟩
        exact hcount
      exact .unanswered .timeout ⟨[], some (header, data), hshort⟩ (by simpa [Haul.headers] using hanswers)

include hcommand in
theorem conducts_attempt_delivers (opcode : UInt32) (arguments : List UInt32) (room : ℕ) :
    Conducts m I (m.attempt opcode arguments false room) .idle fun a trail _ =>
      m.Delivers room a trail.taken := by
  have nothing (e : MailboxError) : m.Delivers room { result := .error e } [] :=
    .unanswered e {} (by simp [Haul.headers])
  unfold attempt
  rw [if_neg Bool.false_ne_true]
  refine (conducts_sendCommand hI hcommand opcode false arguments).bind ?_
  rintro r trail q ⟨haside, -, ⟨rfl, rfl⟩ | rfl | ⟨rfl, -⟩⟩
  · refine (conducts_collect_delivers hI hresponse opcode room _ none).mono ?_
    rintro a later q h
    rwa [haside.taken]
  · refine .pure ?_
    rw [List.append_nil, haside.2]
    exact nothing _
  · refine .pure ?_
    rw [List.append_nil, haside.2]
    exact nothing _

end Attempts

/-! ### A buffer after several attempts -/

omit [RegisterBlock ρ] in
/-- What stands in a buffer has stood there before, or has been copied by one of the attempts. -/
theorem getElem_overlays {n : ℕ} (tries : List Try) (buffer : Vector UInt32 n) (i : ℕ) (hi : i < n) :
    (tries.foldl (fun buffer x => overlay buffer x.attempt.copied) buffer)[i] = buffer[i] ∨
      ∃ x ∈ tries, x.attempt.copied[i]? =
        some (tries.foldl (fun buffer x => overlay buffer x.attempt.copied) buffer)[i] := by
  induction tries generalizing buffer with
  | nil => exact .inl rfl
  | cons x tries ih =>
    rw [List.foldl_cons]
    rcases ih (overlay buffer x.attempt.copied) with h | ⟨y, hy, h⟩
    · rw [h, getElem_overlay buffer _ hi]
      by_cases hlt : i < x.attempt.copied.length
      · refine .inr ⟨x, List.mem_cons_self, ?_⟩
        rw [List.getElem?_eq_getElem hlt, List.getD_eq_getElem _ _ hlt]
      · exact .inl (List.getD_eq_default _ _ (Nat.not_lt.mp hlt))
    · exact .inr ⟨y, List.mem_cons_of_mem _ hy, h⟩

/-- A buffer after attempts of which the last decides. If that one succeeds, the buffer begins with the first
data words of the answer that it met. Behind them is what was there, or what an earlier attempt that met an
answer has copied. -/
structure Overlaid (m : Mailbox ρ) {n : ℕ} (buffer : Vector UInt32 n) (earlier : List Try) (last : Try)
    (after : Vector UInt32 n) : Prop where
  each : ∀ x ∈ earlier ++ [last], m.Delivers n x.attempt x.trail.taken
  again : ∀ x ∈ earlier, ∃ e, x.attempt.result = .error e ∧ e.isTransient = true
  answer : ∀ count, last.attempt.result = .ok count → ∃ others r,
    last.trail.taken = Response.wire (others ++ [r]) ∧
      (∀ x ∈ others, x.header.answers m.client m.transaction = false) ∧
      r.header.answers m.client m.transaction = true ∧
      ResponseCode.ofValue? r.header.code = some .ok ∧ count = min n r.data.length ∧
      ∀ (i : ℕ) (hi : i < n), i < count → r.data[i]? = some after[i]
  rest : ∀ count, last.attempt.result = .ok count → ∀ (i : ℕ) (hi : i < n), count ≤ i →
    after[i] = buffer[i] ∨ ∃ x ∈ earlier, x.attempt.copied[i]? = some after[i]

omit [RegisterBlock ρ] in
theorem Retried.overlaid {n most : ℕ} {buffer : Vector UInt32 n} {tries : List Try}
    {r : Except MailboxError ℕ × Vector UInt32 n}
    (h : Retried (fun a trail _ => m.Delivers n a trail.taken) most buffer tries r) :
    ∃ earlier last, tries = earlier ++ [last] ∧ r.1 = last.attempt.result ∧
      m.Overlaid buffer earlier last r.2 := by
  obtain ⟨last, hlast, hresult⟩ := Option.map_eq_some_iff.mp h.result
  have hsplit : tries.dropLast ++ [last] = tries := List.dropLast_append_getLast? last hlast
  -- every attempt lays its words over what the earlier ones left
  have hafter : r.2 = overlay (tries.dropLast.foldl
      (fun buffer x => overlay buffer x.attempt.copied) buffer) last.attempt.copied := by
    rw [h.buffer]
    conv_lhs => rw [← hsplit, List.foldl_append]
    rfl
  have heach : ∀ x ∈ tries.dropLast ++ [last], m.Delivers n x.attempt x.trail.taken := by
    rw [hsplit]
    exact h.each
  have hdelivers : m.Delivers n last.attempt last.trail.taken := heach last (by simp)
  refine ⟨tries.dropLast, last, hsplit.symm, hresult.symm, heach, h.again, fun count hok => ?_,
    fun count hok i hi hle => ?_⟩
  · obtain ⟨hcount, others, x, htaken, hothers, hanswers, hcode, hcopied⟩ := hdelivers.of_ok hok
    refine ⟨others, x, htaken, hothers, hanswers, hcode, ?_, fun i hi hlt => ?_⟩
    · rw [← hcount, hcopied, List.length_take]
    · have hlt' : i < last.attempt.copied.length := hcount ▸ hlt
      rw [hafter, getElem_overlay _ _ hi, List.getD_eq_getElem _ _ hlt', ← List.getElem?_eq_getElem hlt',
        hcopied, List.getElem?_take_of_lt hi]
  · have hle' : last.attempt.copied.length ≤ i := (hdelivers.of_ok hok).1 ▸ hle
    have hkept := getElem_overlays tries.dropLast buffer i hi
    rwa [hafter, getElem_overlay _ _ hi, List.getD_eq_default _ _ hle']

theorem ends_updateStatus_of_send {s t : ρ} {r : Except MailboxError ℕ}
    {after : Vector UInt32 updateStatusWords}
    (h : Returns (m.send Command.updateStatus.opcode [] false ({} : UpdateStatus).toWords) s (r, after) t) :
    Ends m.updateStatus s (r.map fun _ => (UpdateStatus.ofWords after).raiseLegacyVersion) t := by
  have hrequest := ends_request_of_send h
  unfold updateStatus
  cases r with
  | error e => exact hrequest.bind_error
  | ok count => exact hrequest.bind ((Ends.lift (.emit _ t)).bind (Ends.pure _ t))

/-- **What a command leaves in the buffer of its caller**, for every register block that serves all accesses,
every timing, command, list of arguments and buffer: if the command succeeds, the buffer begins with the first
data words of the answer that it met, and what stands behind them is as the caller had it or was copied by an
earlier attempt of the same call that met an answer and failed all the same. So it is with the words that an
update status is made of, which are the defaults at first. -/
theorem send_overlays (hI : Responsive I) (m : Mailbox ρ) (hcommand : m.map.commandSlots ≠ 0)
    (hresponse : m.map.responseSlots ≠ 0) {s : ρ} (hs : I s) :
    (∀ {n : ℕ} (opcode : UInt32) (arguments : List UInt32) (buffer : Vector UInt32 n),
      ∃ after t earlier last,
        Returns (m.send opcode arguments false buffer) s (last.attempt.result, after) t ∧
          Course m (· = .idle) s ((earlier ++ [last]).flatMap (Try.trails m)) t ∧
          m.Overlaid buffer earlier last after) ∧
      ∃ after t earlier last,
        Ends m.updateStatus s
            (last.attempt.result.map fun _ => (UpdateStatus.ofWords after).raiseLegacyVersion) t ∧
          Course m (· = .idle) s ((earlier ++ [last]).flatMap (Try.trails m)) t ∧
          m.Overlaid ({} : UpdateStatus).toWords earlier last after := by
  have send : ∀ {n : ℕ} (opcode : UInt32) (arguments : List UInt32) (buffer : Vector UInt32 n),
      ∃ after t earlier last,
        Returns (m.send opcode arguments false buffer) s (last.attempt.result, after) t ∧
          Course m (· = .idle) s ((earlier ++ [last]).flatMap (Try.trails m)) t ∧
          m.Overlaid buffer earlier last after := by
    intro n opcode arguments buffer
    have hattempt : Conducts m I (m.attempt opcode arguments false n) (outset false) fun a trail _ =>
        ∃ _ : Haul, m.Delivers n a trail.taken :=
      (conducts_attempt_delivers hI hcommand hresponse opcode arguments n).mono fun _ _ _ h => ⟨{}, h⟩
    have hundertakes : Undertakes m I (· = .idle) (m.send opcode arguments false buffer) _ :=
      undertakes_send_of hI hattempt buffer rfl rfl
    obtain ⟨⟨result, after⟩, t, _, hsend, -, hcourse, tries, hretried, rfl⟩ := hundertakes s hs
    obtain ⟨earlier, last, rfl, hresult, hoverlaid⟩ := hretried.overlaid
    obtain rfl : result = last.attempt.result := hresult
    exact ⟨after, t, earlier, last, hsend, hcourse, hoverlaid⟩
  -- asking for the status is such a call on a buffer of default words
  refine ⟨send, ?_⟩
  obtain ⟨after, t, earlier, last, hsend, hrest⟩ :=
    send Command.updateStatus.opcode [] ({} : UpdateStatus).toWords
  exact ⟨after, t, earlier, last, ends_updateStatus_of_send hsend, hrest⟩

/-! ### A device manager that is busy at first -/

/-- A block that answers the first command by saying that the device manager is busy, with these data words,
and the next with one data word. -/
def busyFirst (data : List UInt32) : ScriptedBlock where
  registers := (0x480, 1) :: (0x24, .ofNat (data.length + 1)) ::
    ((0xb10001ff + 0x1000 * UInt32.ofNat data.length) :: data ++ [0xb1001000, 0x120000]).mapIdx
      fun i word => (.ofNat (0xc0 + 4 * i), word)
  onDelay := [(1, 0x24, .ofNat (data.length + 3)), (1, 0x480, 1)]

/-- A busy answer without data words leaves the defaults behind the word of the next. -/
theorem send_overlays_busy : ∃ after t earlier last,
    Returns (({} : Mailbox ScriptedBlock).send Command.updateStatus.opcode [] false
        ({} : UpdateStatus).toWords) (busyFirst []) (.ok 1, after) t ∧
      ({} : Mailbox ScriptedBlock).Overlaid ({} : UpdateStatus).toWords earlier last after ∧
      after = #v[0x120000, 0, 0, 0, 0, 0, 0, 0, retryCounterUnset] := by
  obtain ⟨after, t, earlier, last, hsend, -, hoverlaid⟩ :=
    (send_overlays ScriptedBlock.responsive {} (by decide) (by decide) (s := busyFirst []) trivial).1
      Command.updateStatus.opcode [] ({} : UpdateStatus).toWords
  have hcomputed := hsend.computed (f := fun r _ => r)
    (c := (.ok 1, #v[0x120000, 0, 0, 0, 0, 0, 0, 0, retryCounterUnset])) (by decide +kernel)
  obtain ⟨hresult, hafter⟩ := Prod.mk.inj hcomputed
  rw [hresult] at hsend
  exact ⟨after, t, earlier, last, hsend, hoverlaid, hafter⟩

/-- A busy answer with data words leaves them in the status that a short answer makes: the retry counter is
set, although the answer does not carry one. -/
theorem status_mixes_answers : ∃ after t,
    Returns (({} : Mailbox ScriptedBlock).send Command.updateStatus.opcode [] false
        ({} : UpdateStatus).toWords) (busyFirst [1, 2, 3, 4, 5, 6, 7, 8, 9]) (.ok 1, after) t ∧
      after = #v[0x120000, 2, 3, 4, 5, 6, 7, 8, 9] ∧
      Ends ({} : Mailbox ScriptedBlock).updateStatus (busyFirst [1, 2, 3, 4, 5, 6, 7, 8, 9])
        (.ok (UpdateStatus.ofWords after).raiseLegacyVersion) t ∧
      (UpdateStatus.ofWords after).raiseLegacyVersion.retryCounter ≠ ({} : UpdateStatus).retryCounter := by
  have hundertakes : Undertakes ({} : Mailbox ScriptedBlock) (fun _ => True) (· = .idle)
      (({} : Mailbox ScriptedBlock).send Command.updateStatus.opcode [] false
        ({} : UpdateStatus).toWords) _ :=
    undertakes_send ScriptedBlock.responsive (by decide) (by decide) _ _ _ _ rfl rfl
  obtain ⟨⟨result, after⟩, t, _, hsend, -⟩ :=
    hundertakes (busyFirst [1, 2, 3, 4, 5, 6, 7, 8, 9]) trivial
  have hcomputed := hsend.computed (f := fun r _ => r)
    (c := (.ok 1, #v[0x120000, 2, 3, 4, 5, 6, 7, 8, 9])) (by decide +kernel)
  obtain ⟨rfl, rfl⟩ := Prod.mk.inj hcomputed
  exact ⟨_, t, hsend, rfl, ends_updateStatus_of_send hsend, by decide⟩

end RemoteUpdate.Mailbox
