import RemoteUpdate.Proofs.Mailbox.Dialogue
import RemoteUpdate.Proofs.Mailbox.Soundness

/-!
# Whose answer it is

Every command goes out under the same client and the same transaction, so a driver cannot tell a late
answer from the one it is waiting for. What it returns belongs to the call if nothing of an earlier command
was under way when the call began.
-/

namespace RemoteUpdate

open EmulatedSdm

namespace Mailbox

variable {timing : Timing} {b s t u : EmulatedSdm} {old : List Response} {m n n' room : Nat}
  {f g g' : Received} {c : LoggedCommand} {opcode : UInt32} {arguments : List UInt32} {a : Attempt}

/-! ### Counting answers -/

/-- Responses that answer, counted up to an answer, tell which answer it is. -/
theorem filter_getElem? {rs : List Response} {r : Response} (h : rs[n]? = some r) (hr : r.Answers) :
    (rs.filter fun r => r.Answers)[heard rs n]? = some r := by
  obtain ⟨hlt, rfl⟩ := List.getElem?_eq_some_iff.mp h
  have hsplit : rs = rs.take n ++ rs[n] :: rs.drop (n + 1) := by
    rw [← List.drop_eq_getElem_cons hlt, List.take_append_drop]
  have hfilter : rs.filter (fun r => r.Answers) = (rs.take n).filter (fun r => r.Answers) ++
      rs[n] :: (rs.drop (n + 1)).filter (fun r => r.Answers) := by
    conv_lhs => rw [hsplit]
    rw [List.filter_append, List.filter_cons_of_pos (by simpa using hr)]
  have hlength : ((rs.take n).filter fun r => r.Answers).length = heard rs n :=
    List.countP_eq_length_filter.symm
  rw [hfilter, ← hlength, List.getElem?_append_right le_rfl, Nat.sub_self, List.getElem?_cons_zero]

theorem heard_le (rs : List Response) (n : Nat) : heard rs n ≤ rs.countP fun r => r.Answers :=
  (List.take_sublist n rs).countP_le

section Own

variable (opcode arguments)

theorem filter_responses (s : EmulatedSdm) :
    (responses (.fromHost opcode arguments) s).filter (fun r => r.Answers) =
      [answer (.fromHost opcode arguments) s] := by
  have hstray := not_answers_stray opcode arguments
  have hanswer := answers_answer opcode arguments s
  rw [responses, List.filter_append, List.filter_replicate, if_neg (by simpa using hstray),
    List.filter_cons_of_pos (by simpa using hanswer), List.filter_nil, List.nil_append]

variable {opcode arguments} in
theorem eq_answer_of_mem {s : EmulatedSdm} {r : Response} (h : r ∈ responses (.fromHost opcode arguments) s)
    (hans : r.Answers) : r = answer (.fromHost opcode arguments) s := by
  have hmem : r ∈ (responses (.fromHost opcode arguments) s).filter fun r => r.Answers :=
    List.mem_filter.mpr ⟨h, decide_eq_true hans⟩
  rw [filter_responses] at hmem
  exact List.mem_singleton.mp hmem

theorem filter_drawn_getElem? (s : EmulatedSdm) (junk : List LoggedCommand) {i k : Nat} (hi : i < k) :
    ((s.drawn (.replicate k (.fromHost opcode arguments) ++ junk)).filter fun r => r.Answers)[i]? =
      some (answer (.fromHost opcode arguments)
        (s.after (.replicate i (.fromHost opcode arguments)))) := by
  induction i generalizing s k with
  | zero =>
    obtain ⟨k, rfl⟩ : ∃ j, k = j + 1 := ⟨k - 1, by omega⟩
    rw [List.replicate_succ, List.cons_append, drawn, List.filter_append, filter_responses]
    rfl
  | succ i ih =>
    obtain ⟨k, rfl⟩ : ∃ j, k = j + 1 := ⟨k - 1, by omega⟩
    rw [List.replicate_succ, List.cons_append, drawn, List.filter_append, filter_responses]
    rw [List.singleton_append, List.getElem?_cons_succ, ih _ (by omega)]
    rfl

theorem count_drawn (s : EmulatedSdm) (k : Nat) :
    (s.drawn (.replicate k (.fromHost opcode arguments))).countP (fun r => r.Answers) = k := by
  induction k generalizing s with
  | zero => rfl
  | succ k ih =>
    rw [List.replicate_succ, drawn, List.countP_append, ih, List.countP_eq_length_filter,
      filter_responses, List.length_singleton, Nat.add_comm]

end Own

section Strangers

variable (hold : ∀ r ∈ old, ¬ r.Answers)
include hold

theorem filter_told (b : EmulatedSdm) (cs : List LoggedCommand) :
    (told b old cs).filter (fun r => r.Answers) = (b.drawn cs).filter fun r => r.Answers := by
  have hnone : old.filter (fun r => r.Answers) = [] := by
    rw [List.filter_eq_nil_iff]
    intro r hr
    simpa using hold r hr
  rw [told, List.filter_append, hnone, List.nil_append]

theorem count_told (b : EmulatedSdm) (k : Nat) :
    (told b old (.replicate k (.fromHost opcode arguments))).countP (fun r => r.Answers) = k := by
  rw [List.countP_eq_length_filter, filter_told hold, ← List.countP_eq_length_filter, count_drawn]

/-- An answer that is due to one of the first commands is due to the command sent. -/
theorem told_own {r : Response} {k : Nat} {junk : List LoggedCommand}
    (hg : g.complete = .replicate k (.fromHost opcode arguments) ++ junk)
    (hr : (told b old g.complete)[m]? = some r) (hans : r.Answers)
    (hk : heard (told b old g.complete) m < k) :
    r = answer (.fromHost opcode arguments)
      (b.after (.replicate (heard (told b old g.complete) m) (.fromHost opcode arguments))) := by
  have h := filter_getElem? hr hans
  generalize heard (told b old g.complete) m = q at hk h ⊢
  rw [filter_told hold, hg, filter_drawn_getElem? opcode arguments b junk hk] at h
  exact (Option.some.inj h).symm

/-- Whoever has heard an answer to the command has seen it executed so many times. -/
theorem executed_own {r : Response} {k : Nat} {junk : List LoggedCommand}
    (hg : g.complete = .replicate k (.fromHost opcode arguments) ++ junk)
    (hf : f.complete <+: g.complete) (hr : (told b old f.complete)[m]? = some r) (hans : r.Answers)
    (hk : heard (told b old g.complete) m < k) :
    f.complete.take (heard (told b old g.complete) m + 1) =
      .replicate (heard (told b old g.complete) m + 1) (.fromHost opcode arguments) := by
  have hm : m < (told b old f.complete).length := (List.getElem?_eq_some_iff.mp hr).1
  have hsame : heard (told b old g.complete) m = heard (told b old f.complete) m :=
    heard_told hf hm.le
  obtain ⟨later, hlater⟩ := hf
  have hlt : heard (told b old f.complete) m < f.complete.length := by
    by_contra hle
    -- otherwise the answer would be one too many
    obtain ⟨j, hj⟩ : ∃ j, f.complete = .replicate j (.fromHost opcode arguments) := by
      have htake := congrArg (List.take f.complete.length) (hlater.trans hg)
      rw [List.take_left, List.take_append_of_le_length (by rw [List.length_replicate]; omega),
        List.take_replicate] at htake
      exact ⟨_, htake⟩
    have htotal : (told b old f.complete).countP (fun r => r.Answers) = f.complete.length := by
      rw [hj, count_told hold, List.length_replicate]
    have hcount := heard_le (told b old f.complete) (m + 1)
    rw [heard_answer hr hans, htotal] at hcount
    omega
  rw [hsame] at hk ⊢
  have htake := congrArg (List.take (heard (told b old f.complete) m + 1)) (hlater.trans hg)
  rw [List.take_append_of_le_length (by omega), List.take_append_of_le_length
    (by rw [List.length_replicate]; omega), List.take_replicate, Nat.min_eq_left (by omega)] at htake
  exact htake

end Strangers

/-! ### Attempts in turn -/

/-- With `m` attempts to go, the next answers are all due to the command: either there are `m` of them to
be heard, or the command is all that has been received, with nothing cut short so far. -/
def Own (timing : Timing) (b : EmulatedSdm) (old : List Response) (c : LoggedCommand) (m n : Nat)
    (g : Received) (s : EmulatedSdm) : Prop :=
  ∃ k junk, g.complete = .replicate k c ++ junk ∧
    (heard (told b old g.complete) n + m ≤ k ∨
      junk = [] ∧ g.part = none ∧ (m ≤ 2 ∨ timing.Patient b.consumeDelay ∨ s.commandWords = []))

section Own

variable (hstrangers : ∀ r ∈ old, ¬ r.Answers) (hwhole : (LoggedCommand.fromHost opcode arguments).Whole)
include hstrangers hwhole

theorem Own.sent (h : Own timing b old (.fromHost opcode arguments) (m + 1) n g s)
    (hd : Dialogue b old n g s)
    (hg : g' = (LoggedCommand.fromHost opcode arguments).words.foldl Received.next g) :
    ∃ k junk, g'.complete = .replicate k (.fromHost opcode arguments) ++ junk ∧
      heard (told b old g'.complete) n < k ∧
      (heard (told b old g'.complete) n + (m + 1) ≤ k ∨ junk = [] ∧ g'.part = none) := by
  obtain ⟨k, junk, hk, hcases⟩ := h
  have hmono : g.complete <+: g'.complete := hg ▸ Received.prefix_all g _
  rw [heard_told hmono hd.within]
  rcases hcases with henough | ⟨rfl, hpart, -⟩
  · obtain ⟨later, hlater⟩ := hmono
    exact ⟨k, junk ++ later, by rw [← hlater, hk, List.append_assoc], by omega, .inl henough⟩
  · obtain ⟨complete, part⟩ := g
    obtain rfl : part = none := hpart
    rw [List.append_nil] at hk
    obtain rfl : complete = .replicate k (.fromHost opcode arguments) := hk
    have hle := heard_le (told b old (.replicate k (.fromHost opcode arguments))) n
    rw [count_told hstrangers] at hle
    rw [Received.next_words hwhole, ← List.replicate_succ'] at hg
    subst hg
    exact ⟨k + 1, [], (List.append_nil _).symm, Nat.lt_succ_of_le hle, .inr ⟨rfl, rfl⟩⟩

omit hwhole in
/-- Cut short while the command is all that has been received, there is an answer to be heard. -/
theorem heard_lt {k : Nat} (hd : Dialogue b old n g s) (hpart : g.part = none)
    (hk : g.complete = .replicate k (.fromHost opcode arguments)) (hwords : s.commandWords ≠ []) :
    heard (told b old g.complete) n < k := by
  obtain ⟨f, hf, hn, -⟩ := hd.seen
  have hmono : f.complete <+: g.complete := hf ▸ Received.prefix_all f _
  have hne : g.complete ≠ f.complete := by
    rw [← hf] at hpart ⊢
    exact Received.complete_ne hwords hpart
  rw [heard_told hmono hn]
  have hlt : f.complete.length < k := by
    have hle := hmono.length_le
    rw [hk, List.length_replicate] at hle
    refine lt_of_le_of_ne hle fun heq => hne ?_
    exact (hmono.eq_of_length (by rw [heq, hk, List.length_replicate])).symm
  obtain ⟨j, hj⟩ : ∃ j, f.complete = .replicate j (.fromHost opcode arguments) := by
    rw [hk] at hmono
    exact ⟨_, List.eq_replicate_of_mem fun c hc => List.eq_of_mem_replicate (hmono.subset hc)⟩
  have hle := heard_le (told b old f.complete) n
  rw [hj, count_told hstrangers] at hle
  rw [hj, List.length_replicate] at hlt
  rw [hj]
  omega

/-- After an attempt, as many answers are left as attempts. -/
theorem Own.attempted (h : Own timing b old (.fromHost opcode arguments) (m + 1) n g s)
    (hm : m ≤ 2 ∨ timing.Patient b.consumeDelay)
    (hpasses : timing.Passes b.consumeDelay (LoggedCommand.fromHost opcode arguments).words.length)
    (hd : Dialogue b old n g s)
    (ha : Attempted timing b old (.fromHost opcode arguments) room s n g a t n' g') :
    Own timing b old (.fromHost opcode arguments) m n' g' t := by
  -- an attempt cut short leaves part of a command behind, which the words of the next one complete
  cases ha with
  | sent hcollected =>
    obtain ⟨k, junk, hk, hlt, hcases⟩ := h.sent hstrangers hwhole hd rfl
    have hheard := hcollected.heard_le
    refine ⟨k, junk, hk, ?_⟩
    rcases hcases with henough | ⟨rfl, hpart⟩
    · exact .inl (by omega)
    · exact .inr ⟨rfl, hpart, hm.imp_right .inl⟩
  | @cut _ front _ _ _ himpatient hbusy =>
    obtain ⟨k, junk, hk, hcases⟩ := h
    have hmono := Received.prefix_all g front
    have hsame := heard_told hmono hd.within
    obtain ⟨later, hlater⟩ := hmono
    refine ⟨k, junk ++ later, by rw [← hlater, hk, List.append_assoc], .inl ?_⟩
    rw [hsame]
    rcases hcases with henough | ⟨rfl, hpart, hfew⟩
    · omega
    · obtain ⟨hpolls, hlength⟩ := hpasses.resolve_left himpatient
      have hwords := hbusy hpolls hlength
      have hlt := heard_lt hstrangers hd hpart (hk.trans (List.append_nil _)) hwords
      have := hfew.resolve_right (not_or.mpr ⟨himpatient, hwords⟩)
      omega

end Own

/-! ### Whole calls -/

/-- From `s` to `t` the device manager executed commands, and one of them drew a response that answers the
host, of which the first `count` data words stand at the start of the buffer. If `few`, that command is `c`,
as are those before it, and the response is the answer to it. -/
def Attributed (s t : EmulatedSdm) (c : LoggedCommand) (few : Prop) {room : Nat} (count : Nat)
    (buffer : Vector UInt32 room) : Prop :=
  ∃ (cs : List LoggedCommand) (i : Nat) (hi : i < cs.length) (r : Response),
    t.log.toList = s.log.toList ++ cs ∧ r ∈ responses cs[i] (s.after (cs.take i)) ∧ r.Answers ∧
      count = min room r.data.length ∧ buffer.toList.take count = r.data.take count ∧
      (few → cs.take (i + 1) = .replicate (i + 1) c ∧ r = answer c (s.after (cs.take i)))

theorem take_overlay (buffer : Vector UInt32 room) (words : List UInt32) :
    (overlay buffer (words.take room)).toList.take (min room words.length) =
      words.take (min room words.length) := by
  refine List.ext_getElem (by simp) fun i hi hi' => ?_
  have hroom : i < room := by simp at hi; omega
  have hwords : i < words.length := by simp at hi; omega
  rw [List.getElem_take, List.getElem_take, Vector.getElem_toList, getElem_overlay buffer _ hroom]
  simp [List.getD_eq_getElem?_getD, hroom, hwords]

theorem Collected.attributed {few : Prop} (hstrangers : ∀ r ∈ old, ¬ r.Answers)
    (hfew : few → ∃ k junk, g.complete = .replicate k (.fromHost opcode arguments) ++ junk ∧
      heard (told b old g.complete) n < k)
    (h : Collected b old g room n a t n') (buffer : Vector UInt32 room) {count : Nat}
    (hok : a.result = .ok count) :
    Attributed b t (.fromHost opcode arguments) few count (overlay buffer a.copied) := by
  cases h with
  | missed => exact nomatch hok
  | @answered _ m r f hf hpast hr hans hm =>
    have hlog' : t.log.toList = b.log.toList ++ f.complete := by
      rw [log_congr hpast]
      exact log_after b f.complete
    have hcount : count = min room r.data.length := (resultOfCode_ok hok).trans List.length_take
    subst hcount
    have hwords := take_overlay buffer r.data
    -- with few attempts the response is to a copy of this command, otherwise to some command logged
    by_cases hyes : few
    · obtain ⟨k, junk, hk, hlt⟩ := hfew hyes
      rw [← hm] at hlt
      have hanswer := told_own hstrangers hk (getElem?_told hf hr) hans hlt
      have htake := executed_own hstrangers hk hf hr hans hlt
      generalize heard (told b old g.complete) m = q at hanswer htake
      have hq : q < f.complete.length := by
        have hlength := congrArg List.length htake
        rw [List.length_take, List.length_replicate] at hlength
        omega
      have hown : f.complete[q] = .fromHost opcode arguments := by
        have hmem : f.complete[q] ∈ f.complete.take (q + 1) :=
          List.mem_take_iff_getElem.mpr ⟨q, by omega, rfl⟩
        rw [htake] at hmem
        exact List.eq_of_mem_replicate hmem
      have hbefore : f.complete.take q = .replicate q (.fromHost opcode arguments) := by
        have h := congrArg (List.take q) htake
        rwa [List.take_take, List.take_replicate, Nat.min_eq_left (by omega)] at h
      rw [← hbefore] at hanswer
      refine ⟨f.complete, q, hq, r, hlog', ?_, hans, rfl, hwords, fun _ => ⟨htake, hanswer⟩⟩
      rw [hown, hanswer]
      exact List.mem_append_right _ (List.mem_singleton_self _)
    · have hmem : r ∈ b.drawn f.complete :=
        (List.mem_append.mp (List.mem_of_getElem? hr)).resolve_left fun hr => hstrangers r hr hans
      obtain ⟨i, hi, hdrawn⟩ := mem_drawn hmem
      exact ⟨f.complete, i, hi, r, hlog', hdrawn, hans, rfl, hwords, fun h => absurd h hyes⟩

section Repetition

variable {number more count : Nat} {buffer buffer' : Vector UInt32 room} {e : MailboxError}
  {r : Except MailboxError Nat}
  (h : Returns ((host timing).attempt opcode arguments false room) s a t)
include h

theorem send_ok (hok : a.result = .ok count) :
    Returns (send.go (host timing) opcode arguments false more number buffer) s
      (.ok count, overlay buffer a.copied) t := by
  unfold send.go
  refine h.bind ?_
  simp only [hok]
  exact .pure _ t

theorem send_fails (herror : a.result = .error e) (hfinal : ¬ e.isTransient) :
    Returns (send.go (host timing) opcode arguments false more number buffer) s
      (.error e, overlay buffer a.copied) t := by
  unfold send.go
  refine h.bind ?_
  simp only [herror, hfinal]
  exact .pure _ t

theorem send_final (hresult : a.result = r) (hfinal : ∀ e, r = .error e → ¬ e.isTransient) :
    Returns (send.go (host timing) opcode arguments false more number buffer) s
      (r, overlay buffer a.copied) t := by
  cases r with
  | ok count => exact send_ok h hresult
  | error e => exact send_fails h hresult (hfinal e rfl)

theorem send_last (ht : t.Sound) (herror : a.result = .error e) (htransient : e.isTransient) :
    Returns (send.go (host timing) opcode arguments false 0 number buffer) s
      (.error e, overlay buffer a.copied) t.ticked := by
  unfold send.go
  refine h.bind ?_
  simp only [herror, htransient, if_true]
  exact (returns_log timing _ t).bind <| (returns_delay ht _).bind (.pure _ _)

theorem send_again (ht : t.Sound) (herror : a.result = .error e) (htransient : e.isTransient)
    (hrest : Returns (send.go (host timing) opcode arguments false more (number + 1)
      (overlay buffer a.copied)) t.ticked (r, buffer') u) :
    Returns (send.go (host timing) opcode arguments false (more + 1) number buffer) s (r, buffer') u := by
  unfold send.go
  refine h.bind ?_
  simp only [herror, htransient, if_true]
  exact (returns_log timing _ t).bind <| (returns_delay ht _).bind hrest

end Repetition

/-- The driver would try again after such an attempt. -/
def Unsettled (a : Attempt) : Prop :=
  ∃ e, a.result = .error e ∧ e.isTransient

/-- A call, by induction on the attempts that are left: `I` holds while there are so many of them, and `Q` of the
result. -/
theorem returns_go {I : Nat → EmulatedSdm → Prop}
    {Q : Except MailboxError Nat → Vector UInt32 room → EmulatedSdm → Prop}
    (hattempt : ∀ m s, I (m + 1) s → ∃ a t, Returns ((host timing).attempt opcode arguments false room) s a t ∧
      t.Sound ∧ (¬ Unsettled a → ∀ buffer, Q a.result (overlay buffer a.copied) t) ∧ (Unsettled a → I m t.ticked))
    (hnone : ∀ s e buffer, I 0 s → Q (.error e) buffer s) (more number : Nat) (buffer : Vector UInt32 room)
    (h : I (more + 1) s) : ∃ r buffer' t,
      Returns (send.go (host timing) opcode arguments false more number buffer) s (r, buffer') t ∧ Q r buffer' t := by
  induction more generalizing s number buffer with
  | zero =>
    obtain ⟨a, t, hreturns, ht, hdone, hagain⟩ := hattempt 0 s h
    by_cases hunsettled : Unsettled a
    · obtain ⟨e, herror, htransient⟩ := hunsettled
      exact ⟨_, _, _, send_last hreturns ht herror htransient, hnone _ e _ (hagain ⟨e, herror, htransient⟩)⟩
    · exact ⟨_, _, t, send_final hreturns rfl fun e he htransient => hunsettled ⟨e, he, htransient⟩,
        hdone hunsettled buffer⟩
  | succ more ih =>
    obtain ⟨a, t, hreturns, ht, hdone, hagain⟩ := hattempt (more + 1) s h
    by_cases hunsettled : Unsettled a
    · obtain ⟨e, herror, htransient⟩ := hunsettled
      obtain ⟨r, buffer', u, hrest, hu⟩ := ih (number + 1) (overlay buffer a.copied)
        (hagain ⟨e, herror, htransient⟩)
      exact ⟨r, buffer', u, send_again hreturns ht herror htransient hrest, hu⟩
    · exact ⟨_, _, t, send_final hreturns rfl fun e he htransient => hunsettled ⟨e, he, htransient⟩,
        hdone hunsettled buffer⟩

/-- A call whose attempts all miss their answer, by the same induction. -/
theorem returns_go_missed {I : EmulatedSdm → Prop}
    (hattempt : ∀ s, I s → ∃ t, Returns ((host timing).attempt opcode arguments false room) s missed t ∧
      t.Sound ∧ I t.ticked) (more number : Nat) (buffer : Vector UInt32 room) (h : I s) : ∃ buffer' t,
      Returns (send.go (host timing) opcode arguments false more number buffer) s (.error .timeout, buffer') t ∧
        I t := by
  induction more generalizing s number buffer with
  | zero =>
    obtain ⟨t, hreturns, ht, hnext⟩ := hattempt s h
    exact ⟨_, _, send_last hreturns ht rfl rfl, hnext⟩
  | succ more ih =>
    obtain ⟨t, hreturns, ht, hnext⟩ := hattempt s h
    obtain ⟨buffer', u, hrest, hu⟩ := ih (number + 1) (overlay buffer []) hnext
    exact ⟨buffer', u, send_again hreturns ht rfl rfl hrest, hu⟩

theorem Own.later (h : Own timing b old c m n g s) (hm : m ≤ 2 ∨ timing.Patient b.consumeDelay) :
    Own timing b old c m n g t := by
  obtain ⟨k, junk, hk, hcases⟩ := h
  exact ⟨k, junk, hk, hcases.imp_right fun ⟨hjunk, hpart, _⟩ =>
    ⟨hjunk, hpart, hm.imp_right .inl⟩⟩

theorem Attempted.attributed {few : Prop} (hstrangers : ∀ r ∈ old, ¬ r.Answers)
    (hwhole : (LoggedCommand.fromHost opcode arguments).Whole) (hd : Dialogue b old n g s)
    (hown : few → Own timing b old (.fromHost opcode arguments) (m + 1) n g s)
    (h : Attempted timing b old (.fromHost opcode arguments) room s n g a t n' g')
    (buffer : Vector UInt32 room) {count : Nat} (hok : a.result = .ok count) :
    Attributed b t (.fromHost opcode arguments) few count (overlay buffer a.copied) := by
  cases h with
  | sent hcollected =>
    refine hcollected.attributed hstrangers (fun hyes => ?_) buffer hok
    obtain ⟨k, junk, hk, hlt, -⟩ := (hown hyes).sent hstrangers hwhole hd rfl
    exact ⟨k, junk, hk, hlt⟩
  | cut => exact nomatch hok

/-- What a call with more attempts to go returns is an answer to a command of the call. -/
theorem send_dialogue {few : Prop} (hb : Idle b) (hold : b.queue = Response.wire old)
    (hstrangers : ∀ r ∈ old, ¬ r.Answers) (hopcode : opcode ≤ maxOpcode)
    (harguments : arguments.length ≤ maxArguments) (hp : 0 < timing.dataPolls)
    (hpasses : timing.Passes b.consumeDelay (LoggedCommand.fromHost opcode arguments).words.length)
    (more number : Nat) (buffer : Vector UInt32 room) (h : Dialogue b old n g s)
    (hown : few → (more ≤ 2 ∨ timing.Patient b.consumeDelay) ∧
      Own timing b old (.fromHost opcode arguments) (more + 1) n g s) :
    ∃ r buffer' t, Returns (send.go (host timing) opcode arguments false more number buffer) s
        (r, buffer') t ∧
      ∀ count, r = .ok count →
        Attributed b t (.fromHost opcode arguments) few count buffer' := by
  have hwhole : (LoggedCommand.fromHost opcode arguments).Whole :=
    LoggedCommand.whole_fromHost harguments
  -- attempts left and copies sent are counted together: each attempt sends one copy at most
  refine returns_go (I := fun m s => ∃ n g, Dialogue b old n g s ∧
      (few → (m ≤ 3 ∨ timing.Patient b.consumeDelay) ∧
        Own timing b old (.fromHost opcode arguments) m n g s))
    (fun m s => ?_) (fun _ e _ _ => ?_) more number buffer
    ⟨n, g, h, fun hyes => (hown hyes).imp_left (.imp_left Nat.succ_le_succ)⟩
  · rintro ⟨n, g, h, hown⟩
    obtain ⟨a, t, n', g', hattempt, hd, hattempted⟩ :=
      attempt_dialogue hb hold hopcode harguments hp room h
    refine ⟨a, t, hattempt, hd.sound, fun _ buffer count hok => ?_, fun _ => ?_⟩
    · exact hattempted.attributed hstrangers hwhole h (fun hyes => (hown hyes).2) buffer hok
    · refine ⟨n', g', hd.advances hb hold (advances_ticked hd.sound), fun hyes => ?_⟩
      obtain ⟨hfew, hown⟩ := hown hyes
      have hmore : m ≤ 2 ∨ timing.Patient b.consumeDelay := hfew.imp_left Nat.le_of_succ_le_succ
      exact ⟨hfew.imp_left Nat.le_of_succ_le,
        (hown.attempted hstrangers hwhole hmore hpasses h hattempted).later hmore⟩
  · rintro _ ⟨⟩

/-! ### Commands that never get through -/

theorem stuck_ticked (hs : s.Sound) (ht : s.Timely) (h : s.Stuck) : s.ticked.Stuck := by
  cases hc : s.countdown with
  | none =>
    have hticked : s.ticked = s.published := by
      unfold ticked
      rw [hc]
    rw [hticked]
    exact (congr_core Stuck (published_spec hs).2.2.1).mpr h
  | some c =>
    obtain ⟨hpos, -⟩ := ht c hc
    match c, hpos with
    | 1, _ =>
      obtain ⟨hempty, hstopped, -⟩ := ticked_due hs hc
      exact .inr ⟨hempty, hstopped⟩
    | n + 2, _ =>
      obtain ⟨hwords, -, -⟩ := ticked_early hs hc
      have hfull : s.commandRoom = 0 := by
        rcases h with hfull | ⟨-, hstopped⟩
        · exact hfull
        · rw [hstopped] at hc
          exact nomatch hc
      exact .inl ((hs.commandRoom_congr (advances_ticked hs).sound hwords).trans hfull)

/-- The driver never gets the command into the ring. -/
structure Blocked (timing : Timing) (c : LoggedCommand) (s : EmulatedSdm) : Prop where
  sound : s.Sound
  urgent : s.urgent = 0
  timely : s.Timely
  reason : timing.commandPolls = 0 ∨
    s.Stuck ∧ ¬ timing.Patient s.consumeDelay ∧ c.words.length = 32

theorem Blocked.ticked (h : Blocked timing c s) : Blocked timing c s.ticked := by
  have hadv := advances_ticked h.sound
  refine ⟨hadv.sound, hadv.urgent.trans h.urgent, hadv.timely h.timely, ?_⟩
  rw [hadv.consumeDelay]
  exact h.reason.imp_right fun ⟨hstuck, hrest⟩ => ⟨stuck_ticked h.sound h.timely hstuck, hrest⟩

theorem Blocked.attempt (hopcode : opcode ≤ maxOpcode) (harguments : arguments.length ≤ maxArguments)
    (h : Blocked timing (.fromHost opcode arguments) s) (room : Nat) :
    ∃ t, Returns ((host timing).attempt opcode arguments false room) s missed t ∧
      Blocked timing (.fromHost opcode arguments) t := by
  have failed : ∀ {t}, Ends ((host timing).writeWords s.cin (LoggedCommand.fromHost opcode arguments).words)
      s (.error .timeout) t → Returns ((host timing).attempt opcode arguments false room) s missed t :=
    fun hwrite => attempt_failed (sendCommand_error h.sound hopcode harguments hwrite)
  by_cases hpolls : timing.commandPolls = 0
  · refine ⟨s, failed ?_, h⟩
    have hword : Ends ((host timing).writeWord s.cin (LoggedCommand.fromHost opcode arguments).header.word)
        s (.error .timeout) s := by
      show Ends (writeWord.go (host timing) s.cin _ timing.commandPolls false) s _ _
      rw [hpolls]
      exact writeWord_zero _ false s
    exact hword.bind_error
  · obtain ⟨hstuck, himpatient, hlength⟩ := h.reason.resolve_left hpolls
    obtain ⟨t, front, hwrite, hsent, hstuck'⟩ := writeWords_blocked h.sound h.urgent h.timely hstuck
      himpatient (Nat.pos_of_ne_zero hpolls) hlength
    refine ⟨t, failed hwrite, hsent.sound, hsent.urgent.trans h.urgent, hsent.timely h.timely, ?_⟩
    rw [hsent.consumeDelay]
    exact .inr ⟨hstuck', himpatient, hlength⟩

theorem Blocked.send (hopcode : opcode ≤ maxOpcode) (harguments : arguments.length ≤ maxArguments)
    (h : Blocked timing (.fromHost opcode arguments) s) (more number : Nat)
    (buffer : Vector UInt32 room) :
    ∃ buffer' t, Returns (send.go (host timing) opcode arguments false more number buffer) s
      (.error .timeout, buffer') t := by
  obtain ⟨buffer', t, hgo, -⟩ := returns_go_missed (I := Blocked timing (.fromHost opcode arguments))
    (fun s hs => (hs.attempt hopcode harguments room).imp fun t ⟨hattempt, ht⟩ => ⟨hattempt, ht.sound, ht.ticked⟩)
    more number buffer h
  exact ⟨buffer', t, hgo⟩

theorem blocked_of_idle (h : Idle s) (harguments : arguments.length ≤ maxArguments)
    (hpasses : ¬ timing.Passes s.consumeDelay (LoggedCommand.fromHost opcode arguments).words.length) :
    Blocked timing (.fromHost opcode arguments) s := by
  refine ⟨h.sound, h.urgent, h.timely, ?_⟩
  unfold Timing.Passes at hpasses
  rw [not_or, not_and] at hpasses
  by_cases hpolls : timing.commandPolls = 0
  · exact .inl hpolls
  · refine .inr ⟨.inr ⟨h.commandWords, h.stopped⟩, hpasses.1, ?_⟩
    have hlength : (LoggedCommand.fromHost opcode arguments).words.length = arguments.length + 1 := rfl
    have hlong := hpasses.2 (Nat.pos_of_ne_zero hpolls)
    unfold maxArguments at harguments
    omega

/-! ### The result -/

/-- Nothing of an earlier command is under way: the command side of the mailbox is idle, and the responses
that wait for the host answer none of its commands. -/
structure Settled (old : List Response) (s : EmulatedSdm) : Prop where
  empty : s.cin = s.cout
  whole : s.partialCommand = none
  urgent : s.urgent = 0
  stopped : s.countdown = none
  queue : s.queue = Response.wire old
  strangers : ∀ r ∈ old, ¬ r.Answers

/-- After any run of the driver with anything going wrong, a call that begins with nothing of an earlier
command under way returns data of an answer to a command of its own. With three attempts at most, or if the
driver waits out the delay, that is the answer to the command sent. -/
theorem send_attributed (timing : Timing) (steps : List Step)
    (hrun : Returns (performAll timing steps) (fresh {}) () s) (hs : Settled old s)
    (opcode : UInt32) (arguments : List UInt32) (buffer : Vector UInt32 room) :
    ∃ r buffer' t, Returns ((host timing).send opcode arguments false buffer) s (r, buffer') t ∧
      ∀ count, r = .ok count → 0 < count ∨ 0 < timing.dataPolls →
        Attributed s t (.fromHost opcode arguments)
          (timing.retries ≤ 3 ∨ timing.Patient s.consumeDelay) count buffer' := by
  obtain ⟨_, s', hreturns, hsound, -⟩ := keeps_performAll timing steps (fresh {}) sound_fresh
  obtain rfl : s = s' := (hrun.unique hreturns).2
  by_cases hp : timing.dataPolls = 0
  · -- without polls for data words, there are none
    obtain ⟨⟨r, buffer'⟩, t, hsend, -, hnone⟩ := keeps_send timing opcode arguments false buffer s hsound
    refine ⟨r, buffer', t, hsend, fun count hok hcount => ?_⟩
    have := hnone hp count hok
    omega
  by_cases hvalid : maxOpcode < opcode ∨ maxArguments < arguments.length
  · have hattempt : Returns ((host timing).attempt opcode arguments false room) s
        { result := .error .invalidArgument } s := attempt_failed (sendCommand_invalid s hvalid)
    refine ⟨_, _, s, send_fails hattempt rfl (by decide), ?_⟩
    rintro _ ⟨⟩
  obtain ⟨hopcode, harguments⟩ := valid_iff.mp hvalid
  have hidle : Idle s := ⟨hsound, hs.empty, hs.whole, hs.urgent, hs.stopped⟩
  by_cases hpasses : timing.Passes s.consumeDelay (LoggedCommand.fromHost opcode arguments).words.length
  · have hown : timing.retries ≤ 3 ∨ timing.Patient s.consumeDelay →
        (timing.retries - 1 ≤ 2 ∨ timing.Patient s.consumeDelay) ∧
          Own timing s old (.fromHost opcode arguments) (timing.retries - 1 + 1) 0 {} s :=
      fun hfew => ⟨hfew.imp_left fun _ => by omega,
        0, [], rfl, .inr ⟨rfl, rfl, .inr (.inr hidle.commandWords)⟩⟩
    obtain ⟨r, buffer', t, hsend, hr⟩ := send_dialogue hidle hs.queue hs.strangers hopcode harguments
      (Nat.pos_of_ne_zero hp) hpasses _ 1 buffer (hidle.dialogue hs.queue) hown
    exact ⟨r, buffer', t, hsend, fun count hok _ => hr count hok⟩
  · obtain ⟨buffer', t, hsend⟩ := (blocked_of_idle hidle harguments hpasses).send hopcode harguments
      (timing.retries - 1) 1 buffer
    refine ⟨_, buffer', t, hsend, ?_⟩
    rintro _ ⟨⟩

/-- A run, and then a call, with the state in between. -/
def runThenSend (timing : Timing) (steps : List Step) (opcode : UInt32) (arguments : List UInt32)
    (room : Nat) : RegisterM EmulatedSdm (EmulatedSdm × Except MailboxError Nat × Vector UInt32 room) := do
  performAll timing steps
  let s ← get
  let answer ← (host timing).send opcode arguments false (Vector.replicate room 0)
  return (s, answer)

/-- Both come to an end, and what is decidable about them is found out by running them. -/
theorem tested_runThenSend (timing : Timing) (steps : List Step) (opcode : UInt32) (arguments : List UInt32)
    (P : EmulatedSdm → Except MailboxError Nat → Vector UInt32 room → EmulatedSdm → Prop)
    [∀ s r buffer t, Decidable (P s r buffer t)]
    (hP : ((runThenSend timing steps opcode arguments room (fresh {}) #[]).map fun x =>
      decide (P x.1.1.1 x.1.1.2.1 x.1.1.2.2 x.1.2)) = some true) :
    ∃ s r buffer t, Returns (performAll timing steps) (fresh {}) () s ∧
      Returns ((host timing).send opcode arguments false (Vector.replicate room 0)) s (r, buffer) t ∧
      P s r buffer t := by
  obtain ⟨_, s, hrun, hsound, -⟩ := keeps_performAll timing steps (fresh {}) sound_fresh
  obtain ⟨⟨r, buffer⟩, t, hsend, -, -⟩ :=
    keeps_send timing opcode arguments false (Vector.replicate room 0) s hsound
  have hboth : Returns (runThenSend timing steps opcode arguments room) (fresh {}) (s, r, buffer) t :=
    hrun.bind <| (Returns.get s).bind <| hsend.bind (.pure _ t)
  exact ⟨s, r, buffer, t, hrun, hsend, hboth.tested (P := fun x t => P x.1 x.2.1 x.2.2 t) hP⟩

/-- A call that follows an exchange on a mailbox in a known state gets its nine words. -/
theorem send_attributed_in_turn : ∃ s buffer t,
    Returns (performAll {} [.init, .send 90 [] 4, .fault (.strays 1)]) (fresh {}) () s ∧
      Returns ((host {}).send 91 [] false (Vector.replicate 9 0)) s (.ok 9, buffer) t ∧
      Attributed s t (.fromHost 91 [])
        (({} : Timing).retries ≤ 3 ∨ ({} : Timing).Patient s.consumeDelay) 9 buffer := by
  obtain ⟨s, r, buffer, t, hrun, hsend, rfl, hempty, hwhole, hurgent, hstopped, hqueue⟩ :=
    tested_runThenSend {} [.init, .send 90 [] 4, .fault (.strays 1)] 91 []
      (fun s r (_ : Vector UInt32 9) _ => r = .ok 9 ∧ s.cin = s.cout ∧ s.partialCommand = none ∧ s.urgent = 0 ∧
        s.countdown = none ∧ s.queue = [])
      (by decide +kernel)
  have hsettled : Settled [] s := ⟨hempty, hwhole, hurgent, hstopped, hqueue, fun _ h => nomatch h⟩
  obtain ⟨r, buffer', t', hsend', hattributed⟩ :=
    send_attributed {} _ hrun hsettled 91 [] (Vector.replicate 9 0)
  obtain ⟨hvalue, rfl⟩ := hsend.unique hsend'
  obtain ⟨rfl, rfl⟩ := Prod.mk.inj hvalue
  exact ⟨s, buffer, t, hrun, hsend, hattributed 9 rfl (.inl (by decide))⟩

/-- When a doorbell gets lost, the command is sent twice, and the second answer stays behind for the next
call, which takes it for its own. -/
theorem late_answer : ∃ s buffer t,
    Returns (performAll {} [.fault (.lostDoorbells 1), .send 90 [] 4]) (fresh {}) () s ∧
      Returns ((host {}).send 91 [] false (Vector.replicate 9 0)) s (.ok 4, buffer) t ∧
      buffer.toList.take 4 = (answer (.fromHost 90 []) (fresh {})).data ∧
      ¬ Attributed s t (.fromHost 91 []) False 4 buffer := by
  obtain ⟨s, r, buffer, t, hrun, hsend, rfl, hbuffer, hlog, hlengths⟩ :=
    tested_runThenSend {} [.fault (.lostDoorbells 1), .send 90 [] 4] 91 []
      (fun s r (buffer : Vector UInt32 9) t => r = .ok 4 ∧
        buffer.toList.take 4 = (answer (.fromHost 90 []) (fresh {})).data ∧
        t.log.toList = s.log.toList ++ [.fromHost 91 []] ∧
        (responses (.fromHost 91 []) s).map (fun r => r.data.length) = [9])
      (by decide +kernel)
  refine ⟨s, buffer, t, hrun, hsend, hbuffer, ?_⟩
  rintro ⟨cs, i, hi, r, hcs, hr, -, hcount, -⟩
  -- the call executed one command, whose answer has nine words
  obtain rfl : cs = [.fromHost 91 []] := List.append_cancel_left (hcs.symm.trans hlog)
  obtain rfl : i = 0 := Nat.lt_one_iff.mp hi
  have hmem : r.data.length ∈ (responses (.fromHost 91 []) s).map fun r => r.data.length :=
    List.mem_map_of_mem hr
  rw [hlengths, List.mem_singleton] at hmem
  omega

def impatient : Timing :=
  { commandPolls := 2, doorbellPolls := 4, dataPolls := 1, retries := 4 }

/-- The next header goes for the argument that a long command lacks, and the arguments that follow it for
commands of a stranger. -/
def strangersLeft : List Step :=
  [.fault (.consumeDelay 13), .send 93 (.replicate 31 0) 0, .fault (.consumeDelay 0),
    .send 4 (.replicate 3 (CommandHeader.make 3 2 0 false 90).word) 0,
    .fault (.busy 1), .fault (.consumeDelay 3), .fault (.lostDoorbells 1)]

/-- With four attempts an impatient driver may take the answer to a command that it cut short. The third
attempt has a stranger to drop and hears that the first found the device busy, and the fourth hears what became
of the second. -/
theorem attempts_limit_needed : ∃ old s buffer t,
    Returns (performAll impatient strangersLeft) (fresh {}) () s ∧ Settled old s ∧
      Returns ((host impatient).send 90 (.replicate 15 0) false (Vector.replicate 4 0)) s (.ok 4, buffer) t ∧
      ¬ Attributed s t (.fromHost 90 (.replicate 15 0)) True 4 buffer := by
  let stranger := answer ⟨CommandHeader.make 3 2 0 false 90, []⟩ (fresh {})
  let command := LoggedCommand.fromHost 90 (.replicate 15 0)
  obtain ⟨s, r, buffer, t, hrun, hsend, rfl, hempty, hwhole, hurgent, hstopped, hqueue, hsecond, hdata⟩ :=
    tested_runThenSend impatient strangersLeft 90 (.replicate 15 0)
      (fun s r (_ : Vector UInt32 4) t => r = .ok 4 ∧ s.cin = s.cout ∧ s.partialCommand = none ∧ s.urgent = 0 ∧
        s.countdown = none ∧ s.queue = Response.wire (.replicate 3 stranger) ∧
        (t.log.toList.drop s.log.size)[1]? ≠ some command ∧ (answer command s).data = [])
      (by decide +kernel)
  refine ⟨.replicate 3 stranger, s, buffer, t, hrun,
    ⟨hempty, hwhole, hurgent, hstopped, hqueue, fun r hr => ?_⟩, hsend, ?_⟩
  · rw [List.eq_of_mem_replicate hr]
    decide +kernel
  · rintro ⟨cs, i, hi, r, hcs, -, -, hcount, -, hfew⟩
    obtain ⟨hown, hanswer⟩ := hfew trivial
    rw [hcs, ← Array.length_toList, List.drop_left] at hsecond
    -- only the first command is the one sent, and its answer says no more than that it failed
    obtain rfl : i = 0 := by
      by_contra hne
      refine hsecond ?_
      rw [← List.getElem?_take_of_lt (show 1 < i + 1 by omega), hown,
        List.getElem?_replicate_of_lt (by omega)]
    have hnone : r.data = [] := by rw [hanswer]; exact hdata
    rw [hnone] at hcount
    exact absurd hcount (by decide)

def curt : Timing :=
  { commandPolls := 2, doorbellPolls := 1, dataPolls := 1, retries := 2 }

/-- A clock is started for words that are gone before it is due. -/
def clockLeft : List Step :=
  [.fault (.consumeDelay 4), .send 93 (.replicate 20 0) 0, .send 90 [] 4, .fault (.consumeDelay 0),
    .send 90 (.replicate 9 0) 4, .fault (.consumeDelay 1)]

/-- A clock left running outlasts a driver that is patient with the delay set since. The first attempt is cut
short, and the second hears what became of it. -/
theorem stopped_needed : ∃ s buffer t,
    Returns (performAll curt clockLeft) (fresh {}) () s ∧
      s.cin = s.cout ∧ s.partialCommand = none ∧ s.urgent = 0 ∧ s.queue = [] ∧ s.countdown ≠ none ∧
      curt.Patient s.consumeDelay ∧
      Returns ((host curt).send 93 (.replicate 31 0) false (Vector.replicate 4 0)) s (.ok 0, buffer) t ∧
      ¬ Attributed s t (.fromHost 93 (.replicate 31 0)) True 0 buffer := by
  obtain ⟨s, r, buffer, t, hrun, hsend, rfl, hempty, hwhole, hurgent, hqueue, hrunning, hpatient, hfirst⟩ :=
    tested_runThenSend curt clockLeft 93 (.replicate 31 0)
      (fun s r (_ : Vector UInt32 4) t => r = .ok 0 ∧ s.cin = s.cout ∧ s.partialCommand = none ∧ s.urgent = 0 ∧
        s.queue = [] ∧ s.countdown ≠ none ∧ curt.Patient s.consumeDelay ∧
        (t.log.toList.drop s.log.size)[0]? ≠ some (.fromHost 93 (.replicate 31 0)))
      (by decide +kernel)
  refine ⟨s, buffer, t, hrun, hempty, hwhole, hurgent, hqueue, hrunning, hpatient, hsend, ?_⟩
  rintro ⟨cs, i, hi, r, hcs, -, -, -, -, hfew⟩
  rw [hcs, ← Array.length_toList, List.drop_left] at hfirst
  refine hfirst ?_
  rw [← List.getElem?_take_of_lt (Nat.succ_pos i), (hfew trivial).1,
    List.getElem?_replicate_of_lt (Nat.succ_pos i)]

end Mailbox

end RemoteUpdate
