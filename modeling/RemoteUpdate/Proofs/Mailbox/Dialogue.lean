import RemoteUpdate.Proofs.Mailbox.Exchange

/-!
# What has been said and heard

A driver that makes several attempts at a command may send it several times, whole or cut short, and may
take answers late. `Dialogue` follows such a run from an idle mailbox on: what the device manager has
received, the responses it has drawn for that, and how many of them the host has taken.
-/

namespace RemoteUpdate

namespace EmulatedSdm

def told (b : EmulatedSdm) (old : List Response) (cs : List LoggedCommand) : List Response :=
  old ++ b.drawn cs

/-- From `b`, where the responses `old` were waiting, the device manager came to `s` by receiving `g`, of
which it may not have seen everything, and the host has taken the first `n` responses. -/
structure Dialogue (b : EmulatedSdm) (old : List Response) (n : Nat) (g : Received)
    (s : EmulatedSdm) : Prop where
  sound : s.Sound
  urgent : s.urgent = 0
  timely : s.Timely
  consumeDelay : s.consumeDelay = b.consumeDelay
  caughtUp : s.caughtUp.behind blank (Response.wire ((told b old g.complete).take n)) =
    b.caughtUp.reached g
  seen : ∃ f : Received, s.commandWords.foldl Received.next f = g ∧
    n ≤ (told b old f.complete).length ∧
    s.queue = Response.wire ((told b old f.complete).drop n) ∧ s.past = (b.reached f).past

variable {b s t : EmulatedSdm} {old : List Response} {n : Nat} {f g : Received}
  {words : List UInt32}

theorem told_mono (b : EmulatedSdm) (old : List Response) (h : f.complete <+: g.complete) :
    told b old f.complete <+: told b old g.complete := by
  obtain ⟨later, h⟩ := h
  rw [told, told, ← h, drawn_append, ← List.append_assoc]
  exact List.prefix_append _ _

theorem take_told (h : f.complete <+: g.complete) (hn : n ≤ (told b old f.complete).length) :
    (told b old g.complete).take n = (told b old f.complete).take n := by
  obtain ⟨later, h⟩ := told_mono b old h
  rw [← h, List.take_append_of_le_length hn]

section Idle

variable (hb : Idle b)
include hb

theorem Idle.drawn_caughtUp (cs : List LoggedCommand) : b.caughtUp.drawn cs = b.drawn cs := by
  rw [caughtUp_of_empty hb.commandWords, drawn_behind]

theorem Idle.past_caughtUp (g : Received) : (b.caughtUp.reached g).past = (b.reached g).past := by
  rw [caughtUp_of_empty hb.commandWords, reached, after_behind]
  rfl

variable (hold : b.queue = Response.wire old)
include hold

theorem Idle.remaining {y : EmulatedSdm} (h : y.behind blank
    (Response.wire ((told b old g.complete).take n)) = b.caughtUp.reached g) :
    y.outbox = Response.wire ((told b old g.complete).drop n) ∧ y.past = (b.reached g).past := by
  have houtbox := congrArg EmulatedSdm.outbox h
  have hpast := congrArg past h
  have hall : (b.caughtUp.after g.complete).outbox = Response.wire (told b old g.complete) := by
    rw [outbox_after, outbox_caughtUp_of_empty hb.commandWords, hold, hb.drawn_caughtUp, told,
      Response.wire_append]
  have hsplit : Response.wire ((told b old g.complete).take n) ++ y.outbox =
      Response.wire ((told b old g.complete).take n) ++
        Response.wire ((told b old g.complete).drop n) := by
    rw [← Response.wire_append, List.take_append_drop, ← hall]
    exact houtbox
  exact ⟨List.append_cancel_left hsplit, hpast.trans (hb.past_caughtUp g)⟩

theorem Idle.dialogue : Dialogue b old 0 {} b where
  sound := hb.sound
  urgent := hb.urgent
  timely := hb.timely
  consumeDelay := rfl
  caughtUp := by
    have hpart : b.caughtUp.partialCommand = none := by
      rw [caughtUp_of_empty hb.commandWords]
      exact hb.whole
    have hreached := reached_part b.caughtUp
    rw [hpart] at hreached
    rw [List.take_zero, Response.wire_nil, caughtUp_behind_nil]
    exact hreached.symm
  seen := by
    have hreached := reached_part b
    rw [hb.whole] at hreached
    refine ⟨{}, by rw [hb.commandWords]; rfl, Nat.zero_le _, ?_, congrArg past hreached.symm⟩
    rw [hold, told, drawn, List.append_nil, List.drop_zero]

namespace Dialogue

theorem all_seen (h : Dialogue b old n g s) (ht : t.caughtUp = s.caughtUp)
    (hempty : t.commandWords = []) :
    ∃ f : Received, t.commandWords.foldl Received.next f = g ∧
      n ≤ (told b old f.complete).length ∧
      t.queue = Response.wire ((told b old f.complete).drop n) ∧ t.past = (b.reached f).past := by
  obtain ⟨f, hf, hn, -⟩ := h.seen
  have hfront : f.complete <+: g.complete := hf ▸ Received.prefix_all f _
  obtain ⟨hqueue, hpast⟩ := settled_of_empty hempty
  obtain ⟨houtbox, hpast'⟩ := hb.remaining hold h.caughtUp
  refine ⟨g, by rw [hempty]; rfl, hn.trans (told_mono b old hfront).length_le, ?_, ?_⟩
  · rw [hqueue, ht, houtbox]
  · rw [hpast, ht, hpast']

theorem advances (h : Dialogue b old n g s) (h' : Advances s t) : Dialogue b old n g t where
  sound := h'.sound
  urgent := h'.urgent.trans h.urgent
  timely := h'.timely h.timely
  consumeDelay := h'.consumeDelay.trans h.consumeDelay
  caughtUp := h'.caughtUp ▸ h.caughtUp
  seen := by
    rcases h'.seen with ⟨hwords, hqueue, hpast⟩ | hempty
    · rw [hwords, hqueue, hpast]
      exact h.seen
    · exact h.all_seen hb hold h'.caughtUp hempty

omit hb hold in
theorem cleared (h : Dialogue b old n g s) (doorbell : UInt32) :
    Dialogue b old n g { s with doorbell } :=
  ⟨⟨h.sound.map, h.sound.cin, h.sound.cout, h.sound.rin, h.sound.rout, h.sound.commandCells,
    h.sound.responseCells⟩, h.urgent, h.timely, h.consumeDelay, h.caughtUp, h.seen⟩

omit hb hold in
theorem within (h : Dialogue b old n g s) : n ≤ (told b old g.complete).length := by
  obtain ⟨f, hf, hn, -⟩ := h.seen
  exact hn.trans (told_mono b old (hf ▸ Received.prefix_all f _)).length_le

omit hb hold in
theorem first (h : Dialogue b old n g s) (hq : s.queue ≠ []) : ∃ (r : Response) (f : Received),
    f.complete <+: g.complete ∧ (told b old f.complete)[n]? = some r ∧
      s.past = (b.reached f).past ∧ ∃ later, s.queue = r.words ++ later := by
  obtain ⟨f, hf, -, hqueue, hpast⟩ := h.seen
  have hlt : n < (told b old f.complete).length := by
    by_contra hle
    rw [List.drop_eq_nil_of_le (by omega)] at hqueue
    exact hq hqueue
  refine ⟨_, f, hf ▸ Received.prefix_all f _, List.getElem?_eq_getElem hlt, hpast,
    Response.wire ((told b old f.complete).drop (n + 1)), ?_⟩
  rw [hqueue, List.drop_eq_getElem_cons hlt]
  rfl

omit hb hold in
theorem taken {r : Response} (h : Dialogue b old n g s) (h' : Taken r.words s t)
    (hr : (told b old g.complete)[n]? = some r) : Dialogue b old (n + 1) g t where
  sound := h'.sound
  urgent := (congr_core EmulatedSdm.urgent h'.core).trans h.urgent
  timely := (congr_core Timely h'.core).mpr h.timely
  consumeDelay := (congr_core EmulatedSdm.consumeDelay h'.core).trans h.consumeDelay
  caughtUp := by
    rw [List.take_add_one, hr, ← h.caughtUp, h'.caughtUp, behind_behind, Response.wire_append]
    simp [Response.words]
  seen := by
    obtain ⟨f, hf, hn, hqueue, hpast⟩ := h.seen
    have hlt : n < (told b old f.complete).length := by
      by_contra hle
      rw [List.drop_eq_nil_of_le (by omega), h'.queue] at hqueue
      simp [Response.words] at hqueue
    -- what was told up to the past is a front of all that is told, so the response is the same in both
    have hsame : (told b old f.complete)[n] = r := by
      obtain ⟨later, hlater⟩ := told_mono b old (hf ▸ Received.prefix_all f _)
      rw [← hlater, List.getElem?_append_left hlt, List.getElem?_eq_getElem hlt] at hr
      exact Option.some.inj hr
    rw [List.drop_eq_getElem_cons hlt, hsame, h'.queue] at hqueue
    have hrest : r.words ++ t.queue = r.words ++ Response.wire ((told b old f.complete).drop (n + 1)) :=
      hqueue
    refine ⟨f, by rw [commandWords_congr h'.core]; exact hf, hlt, ?_, ?_⟩
    · exact List.append_cancel_left hrest
    · exact (congr_core past h'.core).trans hpast

theorem sent (h : Dialogue b old n g s) (h' : Sent words s t) :
    Dialogue b old n (words.foldl Received.next g) t := by
  obtain ⟨f, hf, hn, hqueue, hpast⟩ := h.seen
  have hn' := h.within
  -- whatever part of the words has been absorbed, the responses taken before are the same
  have absorbed : ∀ front : List UInt32, (front.foldl absorb s.caughtUp).behind blank
      (Response.wire ((told b old (front.foldl Received.next g).complete).take n)) =
        b.caughtUp.reached (front.foldl Received.next g) := by
    intro front
    rw [take_told (Received.prefix_all g front) hn', ← absorbAll_behind, h.caughtUp,
      absorbAll_reached]
  refine ⟨h'.sound, h'.urgent.trans h.urgent, h'.timely h.timely,
    h'.consumeDelay.trans h.consumeDelay, ?_, ?_⟩
  · rw [h'.caughtUp]
    exact absorbed words
  · rcases h'.seen with ⟨hwords, hsame, hsame'⟩ | ⟨front, hwords, hqueue', hpast'⟩
    · refine ⟨f, by rw [hwords, List.foldl_append, hf], hn, hsame.trans hqueue, hsame'.trans hpast⟩
    · obtain ⟨houtbox, hpast''⟩ := hb.remaining hold (absorbed front)
      refine ⟨front.foldl Received.next g, ?_, ?_, hqueue'.trans houtbox, hpast'.trans hpast''⟩
      · rw [← List.foldl_append, ← hwords]
      · exact hn'.trans (told_mono b old (Received.prefix_all g front)).length_le

end Dialogue

end Idle

end EmulatedSdm

open EmulatedSdm

/-! ### Answers heard -/

/-- How many of the first responses answer a command of the host. -/
def heard (rs : List Response) (n : Nat) : Nat :=
  (rs.take n).countP fun r => r.Answers

theorem heard_answer {rs : List Response} {n : Nat} {r : Response} (h : rs[n]? = some r)
    (hr : r.Answers) : heard rs (n + 1) = heard rs n + 1 := by
  simp [heard, List.take_add_one, h, hr]

theorem heard_stray {rs : List Response} {n : Nat} {r : Response} (h : rs[n]? = some r)
    (hr : ¬ r.Answers) : heard rs (n + 1) = heard rs n := by
  simp [heard, List.take_add_one, h, hr]

namespace Mailbox

variable {timing : Timing} {b s t : EmulatedSdm} {old : List Response} {n n' room : Nat}
  {f g : Received} {a : Attempt}

/-! ### One attempt -/

theorem getElem?_told {r : Response} (h : f.complete <+: g.complete)
    (hr : (told b old f.complete)[n]? = some r) : (told b old g.complete)[n]? = some r := by
  obtain ⟨later, h⟩ := told_mono b old h
  rw [← h, List.getElem?_append_left (List.getElem?_eq_some_iff.mp hr).1, hr]

theorem heard_told (h : f.complete <+: g.complete) (hn : n ≤ (told b old f.complete).length) :
    heard (told b old g.complete) n = heard (told b old f.complete) n := by
  rw [heard, take_told h hn]
  rfl

/-- How the attempt to collect an answer may turn out for a host that has taken `n` responses and goes on
to take `n'`. -/
inductive Collected (b : EmulatedSdm) (old : List Response) (g : Received) (room n : Nat) :
    Attempt → EmulatedSdm → Nat → Prop where
  | missed {t : EmulatedSdm} {n' : Nat} :
      heard (told b old g.complete) n' = heard (told b old g.complete) n →
      Collected b old g room n missed t n'
  | answered {t : EmulatedSdm} {m : Nat} {r : Response} {f : Received} :
      f.complete <+: g.complete → t.past = (b.reached f).past →
      (told b old f.complete)[m]? = some r → r.Answers →
      heard (told b old g.complete) m = heard (told b old g.complete) n →
      Collected b old g room n (answeredBy r room) t (m + 1)

/-- An attempt hears one answer at most. -/
theorem Collected.heard_le (h : Collected b old g room n a t n') :
    heard (told b old g.complete) n' ≤ heard (told b old g.complete) n + 1 := by
  cases h with
  | missed hsame => omega
  | answered hf _ hr hans hsame => rw [heard_answer (getElem?_told hf hr) hans, hsame]

theorem Collected.after {m : Nat} (h : Collected b old g room n a t n')
    (hsame : heard (told b old g.complete) n = heard (told b old g.complete) m) :
    Collected b old g room m a t n' := by
  cases h with
  | missed hmissed => exact .missed (hmissed.trans hsame)
  | answered hf hpast hr hans hm => exact .answered hf hpast hr hans (hm.trans hsame)

theorem waiting_or_pending (hs : s.Sound) {reading : Option Nat}
    (h : reading = none ∨ reading = some s.rout) :
    Waiting s reading ∨ reading = some s.rout ∧ s.rin ≠ s.rout ∧ s.queue ≠ [] := by
  rcases h with rfl | rfl
  · exact .inl (.inl rfl)
  · by_cases hpending : s.rin = s.rout
    · exact .inl (.inr ⟨rfl, hpending⟩)
    · refine .inr ⟨rfl, hpending, fun hq => hpending ?_⟩
      exact hs.responseWords_eq_nil.mp (List.append_eq_nil_iff.mp hq).1

/-- Whatever is in the way, what is collected is the next answer of the dialogue. -/
theorem collect_dialogue (hb : Idle b) (hold : b.queue = Response.wire old) (opcode : UInt32)
    (room budget : Nat) (hp : 0 < timing.dataPolls) {reading : Option Nat}
    (hreading : reading = none ∨ reading = some s.rout) (h : Dialogue b old n g s) :
    ∃ a t n', Returns ((host timing).collect opcode room budget reading) s a t ∧
      Dialogue b old n' g t ∧ Collected b old g room n a t n' := by
  -- each step takes one response of the dialogue or lets time pass, and both keep it a dialogue
  induction budget generalizing s n reading with
  | zero =>
    rcases waiting_or_pending h.sound hreading with hwaiting | ⟨rfl, hpending, hq⟩
    · exact ⟨missed, s, n, collect_timeout h.sound hwaiting, h, .missed rfl⟩
    · obtain ⟨r, f, hf, hr, hpast, later, hqueue⟩ := h.first hq
      have hall := getElem?_told hf hr
      by_cases hans : r.Answers
      · obtain ⟨t, htaken, hcollect⟩ := collect_answer opcode room 0 h.sound hp hpending hans hqueue
        exact ⟨_, t, n + 1, hcollect, h.taken htaken hall,
          .answered hf ((congr_core past htaken.core).trans hpast) hr hans rfl⟩
      · obtain ⟨t, htaken, hcollect, -⟩ := collect_stray opcode room h.sound hp hpending hans hqueue
        exact ⟨_, t, n + 1, hcollect, h.taken htaken hall, .missed (heard_stray hall hans)⟩
  | succ budget ih =>
    rcases waiting_or_pending h.sound hreading with hwaiting | ⟨rfl, hpending, hq⟩
    · by_cases hraised : s.Raised
      · obtain ⟨a, t, n', hcollect, hrest⟩ := ih (.inr rfl) (h.cleared 0)
        exact ⟨a, t, n', collect_raised h.sound hwaiting hraised hcollect, hrest⟩
      · obtain ⟨a, t, n', hcollect, hrest⟩ := ih (.inl rfl) (h.advances hb hold (advances_ticked h.sound))
        exact ⟨a, t, n', collect_ticked h.sound hwaiting hraised hcollect, hrest⟩
    · obtain ⟨r, f, hf, hr, hpast, later, hqueue⟩ := h.first hq
      have hall := getElem?_told hf hr
      by_cases hans : r.Answers
      · obtain ⟨t, htaken, hcollect⟩ := collect_answer opcode room (budget + 1) h.sound hp hpending
          hans hqueue
        exact ⟨_, t, n + 1, hcollect, h.taken htaken hall,
          .answered hf ((congr_core past htaken.core).trans hpast) hr hans rfl⟩
      · obtain ⟨t, htaken, -, hdrop⟩ := collect_stray opcode room h.sound hp hpending hans hqueue
        obtain ⟨a, u, n', hcollect, hdialogue, hcollected⟩ := ih (.inr rfl) (h.taken htaken hall)
        exact ⟨a, u, n', hdrop _ _ _ hcollect, hdialogue, hcollected.after (heard_stray hall hans)⟩

/-- How an attempt at a command may turn out, started in `s` by a host that has taken `n` responses. -/
inductive Attempted (timing : Timing) (b : EmulatedSdm) (old : List Response) (c : LoggedCommand)
    (room : Nat) (s : EmulatedSdm) (n : Nat) (g : Received) :
    Attempt → EmulatedSdm → Nat → Received → Prop where
  | sent {a : Attempt} {t : EmulatedSdm} {n' : Nat} :
      Collected b old (c.words.foldl Received.next g) room n a t n' →
      Attempted timing b old c room s n g a t n' (c.words.foldl Received.next g)
  | cut {t : EmulatedSdm} {front rest : List UInt32} : c.words = front ++ rest → rest ≠ [] →
      ¬ timing.Patient b.consumeDelay →
      (0 < timing.commandPolls → c.words.length ≤ 31 → s.commandWords ≠ []) →
      Attempted timing b old c room s n g missed t n (front.foldl Received.next g)

theorem attempt_dialogue {opcode : UInt32} {arguments : List UInt32} (hb : Idle b)
    (hold : b.queue = Response.wire old) (hopcode : opcode ≤ maxOpcode)
    (harguments : arguments.length ≤ maxArguments) (hp : 0 < timing.dataPolls) (room : Nat)
    (h : Dialogue b old n g s) :
    ∃ a t n' g', Returns ((host timing).attempt opcode arguments false room) s a t ∧
      Dialogue b old n' g' t ∧
      Attempted timing b old (.fromHost opcode arguments) room s n g a t n' g' := by
  obtain ⟨r, t, hwrite, hcases⟩ := writeWords_sent timing h.sound h.urgent h.timely.ne_zero
    (LoggedCommand.fromHost opcode arguments).words
  rcases hcases with ⟨rfl, hsent, -⟩ | ⟨rfl, himpatient, front, rest, hwords, hrest, hsent⟩
  · have hdialogue := h.sent hb hold hsent
    have hrung := hdialogue.advances hb hold (advances_rung hdialogue.sound)
    have hsend := sendCommand_ok h.sound hopcode harguments hdialogue.urgent hdialogue.sound hwrite
    obtain ⟨a, u, n', hcollect, hafter, hcollected⟩ := collect_dialogue hb hold opcode room
      timing.doorbellPolls hp (.inl rfl) hrung
    exact ⟨a, u, n', _, attempt_sent hsend hcollect, hafter, .sent hcollected⟩
  · have hsend := sendCommand_error h.sound hopcode harguments hwrite
    refine ⟨missed, t, n, _, attempt_failed hsend, h.sent hb hold hsent,
      .cut hwords hrest ?_ fun hpolls hlength hempty => ?_⟩
    · intro hpatient
      rw [← h.consumeDelay] at hpatient
      exact himpatient (hpatient.outlasts h.timely)
    -- with the command ring empty, there would have been room
    have hroom := commandRoom_of_empty h.sound hempty
    have hfits : (LoggedCommand.fromHost opcode arguments).words.length ≤ s.commandRoom := by omega
    obtain ⟨u, hwrite', -⟩ := writeWords_room h.sound hpolls hfits
    exact nomatch (Returns.unique hwrite hwrite').1

/-! ### An attempt with nothing in the way -/

/-- From `s` to `t` the device manager, idle with nothing waiting, has executed a command, and its answer has
been taken. -/
structure Served (c : LoggedCommand) (s t : EmulatedSdm) : Prop where
  idle : Idle t
  quiet : t.queue = []
  doorbells : t.lostDoorbells = some 0
  strays : t.strays = 0
  consumeDelay : t.consumeDelay = s.consumeDelay
  log : t.log = s.log.push c
  bare : t.bare = (executed c s).bare

/-- A dialogue of one command leaves what executing the command leaves. -/
theorem bare_dialogue {c : LoggedCommand} (hs : Idle s) (ht : Idle t) (h : Dialogue s old n ⟨[c], none⟩ t) :
    t.bare = (executed c s).bare ∧ t.strays = 0 := by
  have hpartial : (executed c s).partialCommand = none := (executed_partialCommand c s).trans hs.whole
  have hcaught := h.caughtUp
  rw [caughtUp_of_empty ht.commandWords, caughtUp_of_empty hs.commandWords] at hcaught
  have hreached : (s.behind blank s.responseWords).reached ⟨[c], none⟩ =
      (executed c s).behind blank s.responseWords := by
    have hforget : ({ executed c s with partialCommand := none } : EmulatedSdm) = executed c s := by
      rw [← hpartial]
    show { executed c (s.behind blank s.responseWords) with partialCommand := none } = _
    rw [executed_behind]
    exact congrArg (behind · blank s.responseWords) hforget
  rw [hreached] at hcaught
  have hbare := congrArg EmulatedSdm.bare hcaught
  have hstrays := congrArg EmulatedSdm.strays hcaught
  exact ⟨hbare, hstrays⟩

/-- An attempt at a command has it executed, and gets the answer. -/
theorem attempt_served {opcode : UInt32} {arguments : List UInt32} (h : Idle s) (hqueue : s.queue = [])
    (hdoorbells : s.lostDoorbells = some 0) (hopcode : opcode ≤ maxOpcode)
    (harguments : arguments.length ≤ maxArguments)
    (hbudget : s.strays + s.consumeDelay + 4 ≤ timing.doorbellPolls)
    (hpasses : timing.Passes s.consumeDelay (LoggedCommand.fromHost opcode arguments).words.length)
    (hdata : 0 < timing.dataPolls) (room : Nat) :
    ∃ t, Returns ((host timing).attempt opcode arguments false room) s
        (answeredBy (answer (.fromHost opcode arguments) s) room) t ∧
      Served (.fromHost opcode arguments) s t := by
  have hqueue : s.queue = Response.wire [] := hqueue
  have hwhole : (LoggedCommand.fromHost opcode arguments).Whole := LoggedCommand.whole_fromHost harguments
  obtain ⟨t, hattempt, hlog, hidle, hempty, halert⟩ :=
    attempt_idle h (alert_of_empty h.sound hdoorbells hqueue) hqueue (by simp) hopcode harguments
      (by simpa using hbudget) hpasses hdata room
  obtain ⟨a', t', n, g, hattempt', hdialogue, hattempted⟩ :=
    attempt_dialogue h hqueue hopcode harguments hdata room (h.dialogue hqueue)
  obtain ⟨-, rfl⟩ := hattempt.unique hattempt'
  have hdelay := hdialogue.consumeDelay
  have hgone : t.bare = (executed (.fromHost opcode arguments) s).bare ∧ t.strays = 0 := by
    cases hattempted with
    | sent _ =>
      rw [Received.next_words hwhole] at hdialogue
      exact bare_dialogue h hidle hdialogue
    -- a ring that is empty at the start has room for the whole command
    | cut _ _ himpatient hfilled =>
      obtain ⟨hpolls, hlength⟩ := hpasses.resolve_left himpatient
      exact absurd h.commandWords (hfilled hpolls hlength)
  exact ⟨t, hattempt, hidle, hempty, halert.1, hgone.2, hdelay, hlog, hgone.1⟩

end Mailbox

end RemoteUpdate
