import RemoteUpdate.Proofs.Sdm.Registers

/-!
# Sending commands

What becomes of the words that the host writes into the command ring. A word goes in at once if there is
room, and else when the device manager has emptied the ring; if the host is not patient enough for that,
the command is cut short. `Sent` says which words went in between two states.
-/

namespace RemoteUpdate

namespace EmulatedSdm

variable {s t u : EmulatedSdm} {words words' : List UInt32}

/-- From `s` to `t` the host put `words` into the command ring while the device manager went on. -/
structure Sent (words : List UInt32) (s t : EmulatedSdm) : Prop where
  sound : t.Sound
  rout : t.rout = s.rout
  urgent : t.urgent = s.urgent
  consumeDelay : t.consumeDelay = s.consumeDelay
  caughtUp : t.caughtUp = words.foldl absorb s.caughtUp
  seen : t.commandWords = s.commandWords ++ words ∧ t.queue = s.queue ∧ t.past = s.past ∨
    ∃ front, words = front ++ t.commandWords ∧ t.queue = (front.foldl absorb s.caughtUp).outbox ∧
      t.past = (front.foldl absorb s.caughtUp).past
  clock : Counting s t
  alert : s.Alert → t.Alert
  muted : s.Muted → t.Muted

/-- Once the command ring is empty, everything is as it was to become. -/
theorem settled_of_empty (h : s.commandWords = []) :
    s.queue = s.caughtUp.outbox ∧ s.past = s.caughtUp.past := by
  rw [caughtUp_of_empty h]
  exact ⟨rfl, rfl⟩

theorem Advances.sent (h : Advances s t) : Sent [] s t where
  sound := h.sound
  rout := h.rout
  urgent := h.urgent
  consumeDelay := h.consumeDelay
  caughtUp := h.caughtUp
  seen := by
    rcases h.seen with ⟨hwords, hqueue, hpast⟩ | hempty
    · exact .inl ⟨by rw [hwords, List.append_nil], hqueue, hpast⟩
    · obtain ⟨hqueue, hpast⟩ := settled_of_empty hempty
      rw [h.caughtUp] at hqueue hpast
      exact .inr ⟨[], by rw [hempty, List.append_nil], hqueue, hpast⟩
  clock := h.clock
  alert := h.alert
  muted := h.muted

theorem sent_pushed (hs : s.Sound) (h : 0 < s.commandRing.free s.cin s.cout) (word : UInt32) :
    Sent [word] s (s.pushed word) where
  sound := hs.pushed word
  rout := rfl
  urgent := rfl
  consumeDelay := rfl
  caughtUp := caughtUp_pushed hs h word
  seen := .inl ⟨commandWords_pushed hs h word, rfl, rfl⟩
  clock := .of_eq rfl
  alert := id
  muted := id

theorem Sent.trans (h : Sent words s t) (h' : Sent words' t u) : Sent (words ++ words') s u where
  sound := h'.sound
  rout := h'.rout.trans h.rout
  urgent := h'.urgent.trans h.urgent
  consumeDelay := h'.consumeDelay.trans h.consumeDelay
  caughtUp := by rw [List.foldl_append, ← h.caughtUp, h'.caughtUp]
  seen := by
    rcases h'.seen with ⟨hlater, hqueue, hpast⟩ | ⟨front, hwords, hqueue, hpast⟩
    · rw [hqueue, hpast, hlater]
      rcases h.seen with ⟨hwords, hsame⟩ | ⟨front, hwords, hseen⟩
      · exact .inl ⟨by rw [hwords, List.append_assoc], hsame⟩
      · exact .inr ⟨front, by rw [← List.append_assoc, ← hwords], hseen⟩
    · rw [h.caughtUp, ← List.foldl_append] at hqueue hpast
      exact .inr ⟨words ++ front, by rw [List.append_assoc, ← hwords], hqueue, hpast⟩
  clock := h.clock.trans h.consumeDelay h'.clock
  alert := h'.alert ∘ h.alert
  muted := h'.muted ∘ h.muted

theorem Sent.timely (h : Sent words s t) : s.Timely → t.Timely :=
  h.clock.timely h.consumeDelay

/-- There is room for so many words in the command ring. -/
def commandRoom (s : EmulatedSdm) : Nat :=
  s.commandRing.free s.cin s.cout

theorem Sound.commandRoom (hs : s.Sound) : s.commandRoom + s.commandWords.length = 31 := by
  have h := Ring.free_add_pending (r := s.commandRing) (by have := hs.cin; omega) s.cin s.cout
  rw [Ring.usable, hs.commandCapacity] at h
  rw [EmulatedSdm.commandRoom, commandWords, Ring.length_contents]
  exact h

theorem Sound.commandRoom_eq (hs : s.Sound) (h : s.commandWords = words) :
    s.commandRoom = 31 - words.length := by
  have := hs.commandRoom
  rw [h] at this
  omega

theorem Sound.commandRoom_congr (hs : s.Sound) (ht : t.Sound) (h : t.commandWords = s.commandWords) :
    t.commandRoom = s.commandRoom := by
  rw [hs.commandRoom_eq rfl, ht.commandRoom_eq h]

theorem commandRoom_of_empty (hs : s.Sound) (h : s.commandWords = []) : s.commandRoom = 31 :=
  hs.commandRoom_eq h

theorem room_of_empty (hs : s.Sound) (h : s.commandWords = []) : 0 < s.commandRoom := by
  rw [commandRoom_of_empty hs h]
  decide

theorem room_pushed (hs : s.Sound) (h : 0 < s.commandRoom) (word : UInt32) :
    (s.pushed word).commandRoom + 1 = s.commandRoom := by
  have hroom := (hs.pushed word).commandRoom_eq (commandWords_pushed hs h word)
  have hbefore := hs.commandRoom
  rw [List.length_append, List.length_singleton] at hroom
  omega

/-- The host would have to wait for the device manager, or has waited and seen the ring emptied. -/
def Stuck (s : EmulatedSdm) : Prop :=
  s.commandRoom = 0 ∨ s.commandWords = [] ∧ s.countdown = none

end EmulatedSdm

open EmulatedSdm

/-- The host waits long enough for a device manager with such a delay to empty the command ring. -/
def Timing.Patient (timing : Timing) (delay : Nat) : Prop :=
  max delay 1 < timing.commandPolls

instance (timing : Timing) (delay : Nat) : Decidable (timing.Patient delay) :=
  inferInstanceAs (Decidable (_ < _))

/-- The driver gets so many words through to an idle device manager with such a delay. -/
def Timing.Passes (timing : Timing) (delay count : Nat) : Prop :=
  timing.Patient delay ∨ 0 < timing.commandPolls ∧ count ≤ 31

instance (timing : Timing) (delay count : Nat) : Decidable (timing.Passes delay count) :=
  inferInstanceAs (Decidable (_ ∨ _))

/-- The host waits long enough for this device manager, which may have started its clock before its delay
was changed. -/
structure Timing.Outlasts (timing : Timing) (s : EmulatedSdm) : Prop where
  delay : timing.Patient s.consumeDelay
  clock : ∀ c, s.countdown = some c → timing.Patient c

theorem Timing.Patient.mono {timing : Timing} {delay delay' : Nat} (h : timing.Patient delay)
    (hle : delay' ≤ delay) : timing.Patient delay' := by
  unfold Timing.Patient at *
  omega

theorem Timing.Patient.outlasts {timing : Timing} {s : EmulatedSdm}
    (h : timing.Patient s.consumeDelay) (ht : s.Timely) : timing.Outlasts s :=
  ⟨h, fun c hc => h.mono (ht c hc).2⟩

theorem Timing.Outlasts.counting {timing : Timing} {s t : EmulatedSdm} (h : timing.Outlasts s)
    (hdelay : t.consumeDelay = s.consumeDelay) (hclock : Counting s t) : timing.Outlasts t := by
  refine ⟨hdelay ▸ h.delay, fun c hc => ?_⟩
  rcases hclock c hc with ⟨-, hle⟩ | ⟨c', hc', hle, -⟩
  · exact h.delay.mono hle
  · exact (h.clock c' hc').mono hle

namespace Mailbox

/-- The driver of the usual host in front of an emulated device manager. -/
def host (timing : Timing) : Mailbox EmulatedSdm :=
  { timing }

variable {timing : Timing} {s t u : EmulatedSdm} {words : List UInt32} {word : UInt32} {polls : Nat}

/-! ### Accesses -/

theorem returns_read (timing : Timing) (offset : UInt32) (s : EmulatedSdm) :
    Returns ((host timing).read offset) s (s.readRegister offset) s :=
  (Returns.get s).bind (.pure _ s)

theorem returns_log (timing : Timing) (e : MailboxEvent) (s : EmulatedSdm) :
    Returns ((host timing).log e) s () s :=
  Returns.emit _ s

theorem returns_delay (hs : s.Sound) (micros : Nat) :
    Returns ((host timing).delay micros) s () s.ticked :=
  returns_tick hs

theorem commandRing_host (timing : Timing) (hs : s.Sound) : (host timing).commandRing = s.commandRing := by
  rw [EmulatedSdm.commandRing, hs.map]
  rfl

theorem returns_commandIn (hs : s.Sound) :
    Returns ((host timing).cursor (host timing).commandRing (host timing).map.commandIn) s s.cin s := by
  rw [commandRing_host timing hs]
  refine (returns_read timing ({} : RegisterMap).commandIn s).bind ?_
  rw [readRegister_commandIn hs, wrap_ofNat hs.cin (by rw [hs.commandCapacity]; decide), hs.whenSlotted_command]
  exact .orAbort s.cin s

/-! ### One word -/

theorem ends_isFull {ε : Type} (hs : s.Sound) :
    Ends (liftM (orAbort ((host timing).commandRing.whenSlotted
      ((host timing).commandRing.isFull s.cin (UInt32.ofNat s.cout).toNat))) :
        ExceptT ε (RegisterM EmulatedSdm) Bool) s (.ok (decide (s.commandRoom = 0))) s := by
  have hcout : (UInt32.ofNat s.cout).toNat = s.cout := by
    have := hs.cout
    rw [hs.commandCapacity] at this
    rw [UInt32.toNat_ofNat']
    omega
  have hfull : s.commandRing.isFull s.cin s.cout = decide (s.commandRoom = 0) := by
    rw [Bool.eq_iff_iff, Ring.isFull_iff hs.cin hs.cout, decide_eq_true_iff]
    rfl
  rw [commandRing_host timing hs, hcout, hfull, hs.whenSlotted_command]
  exact .lift (.orAbort _ s)

theorem writeWord_room (hs : s.Sound) (h : 0 < s.commandRoom) (rung : Bool) :
    Ends (writeWord.go (host timing) s.cin word (polls + 1) rung) s (.ok (s.pushed word).cin)
      (s.pushed word) := by
  have hread := returns_read timing ({} : RegisterMap).commandOut s
  rw [readRegister_commandOut hs] at hread
  unfold writeWord.go
  refine (Ends.lift hread).bind <| (ends_isFull hs).bind ?_
  rw [decide_eq_false (by omega)]
  simp only [Bool.false_eq_true, if_false]
  rw [commandRing_host timing hs]
  exact (Ends.lift (returns_fill hs word)).bind <| (Ends.lift (returns_push hs word)).bind (.pure _ _)

theorem writeWord_zero (cin : Nat) (rung : Bool) (s : EmulatedSdm) :
    Ends (writeWord.go (host timing) cin word 0 rung) s (.error .timeout) s :=
  (Ends.lift (returns_log timing _ s)).bind (.throw _ s)

theorem writeWord_full (hs : s.Sound) (hu : s.urgent = 0) (h : s.commandRoom = 0) (rung : Bool)
    {r : Except MailboxError Nat}
    (hrest : Ends (writeWord.go (host timing) s.cin word polls true)
      (if rung then s else s.rung).ticked r t) :
    Ends (writeWord.go (host timing) s.cin word (polls + 1) rung) s r t := by
  have hread := returns_read timing ({} : RegisterMap).commandOut s
  rw [readRegister_commandOut hs] at hread
  unfold writeWord.go
  refine (Ends.lift hread).bind <| (ends_isFull hs).bind ?_
  rw [decide_eq_true h]
  simp only [if_true]
  cases rung with
  | true => exact (Ends.lift (returns_delay hs _)).bind hrest
  | false =>
    have hring := returns_ring hs hu
    exact (Ends.lift hring).bind <| (Ends.lift (returns_delay (advances_rung hs).sound _)).bind hrest

/-- How writing a word may turn out. -/
inductive Written (timing : Timing) (word : UInt32) (s : EmulatedSdm) :
    Except MailboxError Nat → EmulatedSdm → Prop where
  | atOnce : 0 < s.commandRoom → Written timing word s (.ok (s.pushed word).cin) (s.pushed word)
  | afterwards {u : EmulatedSdm} : s.commandRoom = 0 → Advances s u → u.commandWords = [] →
      (s.Timely → u.countdown = none) → (s.countdown = none → timing.Patient s.consumeDelay) →
      Written timing word s (.ok (u.pushed word).cin) (u.pushed word)
  | never {u : EmulatedSdm} : Advances s u → ¬ timing.Outlasts s →
      (s.Timely → 0 < timing.commandPolls → s.commandRoom = 0 ∧ u.Stuck) →
      Written timing word s (.error .timeout) u

theorem writeWord_emptied (hs : s.Sound) (h : s.commandWords = []) (rung : Bool) :
    Ends (writeWord.go (host timing) s.cin word (polls + 1) rung) s (.ok (s.pushed word).cin)
      (s.pushed word) :=
  writeWord_room hs (room_of_empty hs h) rung

theorem writeWord_rings (hs : s.Sound) (hu : s.urgent = 0) (h : s.commandRoom = 0)
    {r : Except MailboxError Nat}
    (hrest : Ends (writeWord.go (host timing) s.cin word polls true) s.rung.ticked r t) :
    Ends (writeWord.go (host timing) s.cin word (polls + 1) false) s r t :=
  writeWord_full hs hu h false hrest

/-- With the clock running, the word goes in once the time has come, if the polls last. -/
theorem writeWord_waits (timing : Timing) (word : UInt32) (polls : Nat) (hs : s.Sound)
    (hu : s.urgent = 0) (hroom : s.commandRoom = 0) {c : Nat} (hc : s.countdown = some (c + 1)) :
    ∃ u, Advances s u ∧
      (c < polls ∧ u.commandWords = [] ∧ u.countdown = none ∧
          Ends (writeWord.go (host timing) s.cin word polls true) s.ticked
            (.ok (u.pushed word).cin) (u.pushed word) ∨
        polls ≤ c ∧ u.Stuck ∧
          Ends (writeWord.go (host timing) s.cin word polls true) s.ticked (.error .timeout) u) := by
  have hadv := advances_ticked hs
  -- each poll is one tick of the countdown, so whichever is the shorter decides
  induction c generalizing s polls with
  | zero =>
    obtain ⟨hempty, hstopped, -⟩ := ticked_due hs hc
    refine ⟨s.ticked, hadv, ?_⟩
    rw [← hadv.cin]
    cases polls with
    | zero => exact .inr ⟨le_rfl, .inr ⟨hempty, hstopped⟩, writeWord_zero _ true s.ticked⟩
    | succ polls =>
      exact .inl ⟨by omega, hempty, hstopped, writeWord_emptied hadv.sound hempty true⟩
  | succ c ih =>
    obtain ⟨hwords, hcount, -⟩ := ticked_early hs hc
    have hfull : s.ticked.commandRoom = 0 := (hs.commandRoom_congr hadv.sound hwords).trans hroom
    rw [← hadv.cin]
    cases polls with
    | zero =>
      exact ⟨s.ticked, hadv, .inr ⟨by omega, .inl hfull, writeWord_zero _ true s.ticked⟩⟩
    | succ polls =>
      have hu' := hadv.urgent.trans hu
      obtain ⟨u, hafter, hcases⟩ := ih polls hadv.sound hu' hfull hcount (advances_ticked hadv.sound)
      refine ⟨u, hadv.trans hafter, ?_⟩
      rcases hcases with ⟨hlt, hempty, hnone, hends⟩ | ⟨hle, hstuck, hends⟩
      · exact .inl ⟨by omega, hempty, hnone, writeWord_full hadv.sound hu' hfull true hends⟩
      · exact .inr ⟨by omega, hstuck, writeWord_full hadv.sound hu' hfull true hends⟩

/-- A driver that polls once at most does not wait for the device manager. -/
theorem not_outlasts (s : EmulatedSdm) (h : timing.commandPolls ≤ 1) : ¬ timing.Outlasts s := by
  intro hout
  have := hout.delay
  unfold Timing.Patient at this
  omega

/-- The ring is full, and the device manager empties it as soon as it hears the doorbell. -/
theorem writeWord_prompt (word : UInt32) (hs : s.Sound) (hu : s.urgent = 0) (hroom : s.commandRoom = 0)
    (hdelay : s.consumeDelay = 0) (hpolls : timing.commandPolls = polls + 1) :
    ∃ r t, Ends (writeWord.go (host timing) s.cin word (polls + 1) false) s r t ∧
      Written timing word s r t := by
  have hrung := advances_rung hs
  have hticked := advances_ticked hrung.sound
  have hadv := hrung.trans hticked
  obtain ⟨hempty, hcount, hpublished, -⟩ := rung_at_once hs hdelay
  have hempty' : s.rung.ticked.commandWords = [] := by
    rcases hticked.seen with ⟨hwords, -⟩ | hempty'
    · exact hwords.trans hempty
    · exact hempty'
  have hidle : s.Timely → s.rung.ticked.countdown = none := by
    intro ht
    have hstopped : s.rung.countdown = none := by
      rw [hcount, Option.eq_none_iff_forall_ne_some]
      intro c hc
      have := ht c hc
      omega
    rw [ticked_idle hstopped hpublished, hstopped]
  cases polls with
  | zero =>
    exact ⟨_, _, writeWord_rings hs hu hroom (writeWord_zero _ true _),
      .never hadv (not_outlasts s hpolls.le) fun ht _ => ⟨hroom, .inr ⟨hempty', hidle ht⟩⟩⟩
  | succ polls =>
    refine ⟨_, _, writeWord_rings hs hu hroom ?_, .afterwards hroom hadv hempty' hidle fun _ => ?_⟩
    · rw [← hadv.cin]
      exact writeWord_emptied hadv.sound hempty' true
    · unfold Timing.Patient
      omega

/-- The ring is full, and the device manager empties it when its clock runs out. -/
theorem writeWord_delayed (word : UInt32) (hs : s.Sound) (hu : s.urgent = 0) (hroom : s.commandRoom = 0)
    (hdelay : s.consumeDelay ≠ 0) (hc : s.countdown ≠ some 0) (hpolls : timing.commandPolls = polls + 1) :
    ∃ r t, Ends (writeWord.go (host timing) s.cin word (polls + 1) false) s r t ∧
      Written timing word s r t := by
  have hrung := advances_rung hs
  obtain ⟨hwords, -, hcount⟩ := rung_delayed hdelay
  have hfull : s.rung.commandRoom = 0 := (hs.commandRoom_congr hrung.sound hwords).trans hroom
  -- ringing starts the clock unless it runs already, and it never stands at zero here
  obtain ⟨c, hwait⟩ : ∃ c, s.countdown.getD s.consumeDelay = c + 1 := by
    refine Nat.exists_eq_add_one_of_ne_zero fun hzero => ?_
    cases hclock : s.countdown with
    | none => exact hdelay (by simpa [hclock] using hzero)
    | some c => exact hc (by simpa [hclock] using hzero)
  rw [hwait] at hcount
  obtain ⟨u, hafter, hcases⟩ := writeWord_waits timing word polls hrung.sound (hrung.urgent.trans hu) hfull
    hcount
  rw [hrung.cin] at hcases
  rcases hcases with ⟨hlt, hempty, hnone, hends⟩ | ⟨hle, hstuck, hends⟩
  · refine ⟨_, _, writeWord_rings hs hu hroom hends,
      .afterwards hroom (hrung.trans hafter) hempty (fun _ => hnone) fun hidle => ?_⟩
    rw [hidle, Option.getD_none] at hwait
    unfold Timing.Patient
    omega
  · refine ⟨_, u, writeWord_rings hs hu hroom hends, .never (hrung.trans hafter) (fun hout => ?_)
      fun _ _ => ⟨hroom, hstuck⟩⟩
    have hpatient : timing.Patient (c + 1) := by
      rw [← hwait]
      cases hclock : s.countdown with
      | none => exact hout.delay
      | some c => exact hout.clock c hclock
    unfold Timing.Patient at hpatient
    omega

theorem writeWord_written (timing : Timing) (hs : s.Sound) (hu : s.urgent = 0)
    (hc : s.countdown ≠ some 0) (word : UInt32) :
    ∃ r t, Ends ((host timing).writeWord s.cin word) s r t ∧ Written timing word s r t := by
  show ∃ r t, Ends (writeWord.go (host timing) s.cin word timing.commandPolls false) s r t ∧ _
  cases hpolls : timing.commandPolls with
  | zero =>
    exact ⟨_, s, writeWord_zero _ false s,
      .never (.refl hs) (not_outlasts s (by omega)) fun _ => by omega⟩
  | succ polls =>
    by_cases hroom : 0 < s.commandRoom
    · exact ⟨_, _, writeWord_room hs hroom false, .atOnce hroom⟩
    · have hfull : s.commandRoom = 0 := by omega
      by_cases hdelay : s.consumeDelay = 0
      · exact writeWord_prompt word hs hu hfull hdelay hpolls
      · exact writeWord_delayed word hs hu hfull hdelay hc hpolls

/-! ### Many words -/

/-- A word goes in, or the driver gives up and has seen the ring full all the time. -/
theorem Written.sent {r : Except MailboxError Nat} (hs : s.Sound) (h : Written timing word s r t) :
    r = .ok t.cin ∧ Sent [word] s t ∧ t.commandWords ≠ [] ∨
      r = .error .timeout ∧ Sent [] s t ∧ ¬ timing.Outlasts s := by
  have pushed : ∀ u : EmulatedSdm, u.Sound → 0 < u.commandRoom → (u.pushed word).commandWords ≠ [] := by
    intro u hu hroom
    rw [commandWords_pushed hu hroom]
    simp
  cases h with
  | atOnce hroom => exact .inl ⟨rfl, sent_pushed hs hroom word, pushed s hs hroom⟩
  | @afterwards u _ hadv hempty _ _ =>
    have hroom := room_of_empty hadv.sound hempty
    exact .inl ⟨rfl, hadv.sent.trans (sent_pushed hadv.sound hroom word), pushed u hadv.sound hroom⟩
  | never hadv himpatient _ => exact .inr ⟨rfl, hadv.sent, himpatient⟩

theorem writeWords_sent (timing : Timing) (hs : s.Sound) (hu : s.urgent = 0)
    (hc : s.countdown ≠ some 0) (words : List UInt32) : ∃ r t, Ends ((host timing).writeWords s.cin words) s r t ∧
      (r = .ok t.cin ∧ Sent words s t ∧ (s.commandWords ≠ [] ∨ words ≠ [] → t.commandWords ≠ []) ∨
        r = .error .timeout ∧ ¬ timing.Outlasts s ∧
          ∃ front rest, words = front ++ rest ∧ rest ≠ [] ∧ Sent front s t) := by
  induction words generalizing s with
  | nil => exact ⟨_, s, .pure _ s, .inl ⟨rfl, (Advances.refl hs).sent, by simp⟩⟩
  | cons word words ih =>
    obtain ⟨r, t, hends, hwritten⟩ := writeWord_written timing hs hu hc word
    rcases hwritten.sent hs with ⟨rfl, hsent, hin⟩ | ⟨rfl, hsent, himpatient⟩
    · obtain ⟨r, u, hrest, hcases⟩ :=
        ih hsent.sound (hsent.urgent.trans hu) (hsent.clock.ne_zero hc)
      refine ⟨r, u, hends.bind hrest, ?_⟩
      rcases hcases with ⟨rfl, hsent', hin'⟩ | ⟨rfl, himpatient, front, rest, rfl, hne, hsent'⟩
      · exact .inl ⟨rfl, hsent.trans hsent', fun _ => hin' (.inl hin)⟩
      · replace himpatient : ¬ timing.Outlasts s :=
          fun h => himpatient (h.counting hsent.consumeDelay hsent.clock)
        exact .inr ⟨rfl, himpatient, word :: front, rest, rfl, hne, hsent.trans hsent'⟩
    · exact ⟨_, t, hends.bind_error, .inr ⟨rfl, himpatient, [], word :: words, rfl,
        List.cons_ne_nil _ _, hsent⟩⟩

theorem writeWords_room (hs : s.Sound) (hp : 0 < timing.commandPolls) {words : List UInt32}
    (h : words.length ≤ s.commandRoom) :
    ∃ t, Ends ((host timing).writeWords s.cin words) s (.ok t.cin) t ∧ Sent words s t := by
  induction words generalizing s with
  | nil => exact ⟨s, .pure _ s, (Advances.refl hs).sent⟩
  | cons word words ih =>
    rw [List.length_cons] at h
    have hroom : 0 < s.commandRoom := by omega
    obtain ⟨polls, hpolls⟩ : ∃ polls, timing.commandPolls = polls + 1 :=
      ⟨timing.commandPolls - 1, by omega⟩
    have hword : Ends ((host timing).writeWord s.cin word) s (.ok (s.pushed word).cin)
        (s.pushed word) := by
      show Ends (writeWord.go (host timing) s.cin word timing.commandPolls false) s _ _
      rw [hpolls]
      exact writeWord_room hs hroom false
    have hless : words.length ≤ (s.pushed word).commandRoom := by
      have := room_pushed hs hroom word
      omega
    obtain ⟨t, hrest, hsent⟩ := ih (hs.pushed word) hless
    exact ⟨t, hword.bind hrest, (sent_pushed hs hroom word).trans hsent⟩

/-- An impatient driver never gets through more words than there is room for. -/
theorem writeWords_stuck (hs : s.Sound) (hu : s.urgent = 0) (ht : s.Timely)
    (hc : s.countdown = none) (himpatient : ¬ timing.Patient s.consumeDelay)
    (hp : 0 < timing.commandPolls) {words : List UInt32} (h : s.commandRoom < words.length) :
    ∃ t front, Ends ((host timing).writeWords s.cin words) s (.error .timeout) t ∧
      Sent front s t ∧ t.Stuck := by
  induction words generalizing s with
  | nil => exact absurd h (Nat.not_lt_zero _)
  | cons word words ih =>
    rw [List.length_cons] at h
    obtain ⟨r, t, hends, hwritten⟩ := writeWord_written timing hs hu ht.ne_zero word
    cases hwritten with
    | atOnce hroom =>
      have hless : (s.pushed word).commandRoom < words.length := by
        have := room_pushed hs hroom word
        omega
      obtain ⟨t, front, hrest, hsent, hstuck⟩ := ih (hs.pushed word) hu ht hc himpatient hless
      exact ⟨t, _, hends.bind hrest, (sent_pushed hs hroom word).trans hsent, hstuck⟩
    | afterwards _ _ _ _ hpatient => exact absurd (hpatient hc) himpatient
    | never hadv _ hstuck => exact ⟨t, _, hends.bind_error, hadv.sent, (hstuck ht hp).2⟩

/-- A command that fills the ring and one slot more is never sent whole by an impatient driver. -/
theorem writeWords_blocked (hs : s.Sound) (hu : s.urgent = 0) (ht : s.Timely) (hstuck : s.Stuck)
    (himpatient : ¬ timing.Patient s.consumeDelay) (hp : 0 < timing.commandPolls)
    {words : List UInt32} (h : words.length = 32) :
    ∃ t front, Ends ((host timing).writeWords s.cin words) s (.error .timeout) t ∧
      Sent front s t ∧ t.Stuck := by
  -- with a full ring even the first word has to wait, with an empty one only the last of them
  rcases hstuck with hfull | ⟨hempty, hidle⟩
  · obtain ⟨word, words, rfl⟩ := List.exists_cons_of_length_eq_add_one h
    obtain ⟨r, t, hends, hwritten⟩ := writeWord_written timing hs hu ht.ne_zero word
    cases hwritten with
    | atOnce hroom => omega
    | @afterwards u _ hadv hempty hidle _ =>
      have hroom := room_of_empty hadv.sound hempty
      have hless : (u.pushed word).commandRoom < words.length := by
        have := commandRoom_of_empty hadv.sound hempty
        have := room_pushed hadv.sound hroom word
        rw [List.length_cons] at h
        omega
      have hdelay : ¬ timing.Patient (u.pushed word).consumeDelay := by
        rw [show (u.pushed word).consumeDelay = s.consumeDelay from hadv.consumeDelay]
        exact himpatient
      obtain ⟨t, front, hrest, hsent, hstuck⟩ := writeWords_stuck (hadv.sound.pushed word)
        (hadv.urgent.trans hu) (hadv.timely ht) (hidle ht) hdelay hp hless
      exact ⟨t, _, hends.bind hrest,
        (hadv.sent.trans (sent_pushed hadv.sound hroom word)).trans hsent, hstuck⟩
    | never hadv _ hstuck => exact ⟨t, _, hends.bind_error, hadv.sent, (hstuck ht hp).2⟩
  · have hroom := commandRoom_of_empty hs hempty
    exact writeWords_stuck hs hu ht hidle himpatient hp (by omega)

/-! ### Commands -/

section Commands

variable {opcode : UInt32} {arguments : List UInt32}

theorem valid_iff : ¬ (maxOpcode < opcode ∨ maxArguments < arguments.length) ↔
    opcode ≤ maxOpcode ∧ arguments.length ≤ maxArguments := by
  rw [not_or, UInt32.not_lt, Nat.not_lt]

theorem sendCommand_invalid (s : EmulatedSdm)
    (h : maxOpcode < opcode ∨ maxArguments < arguments.length) :
    Ends ((host timing).sendCommand opcode false arguments) s (.error .invalidArgument) s := by
  unfold sendCommand
  rw [if_pos h]
  exact (Ends.throw _ s).bind_error

variable (hs : s.Sound) (hopcode : opcode ≤ maxOpcode) (harguments : arguments.length ≤ maxArguments)
include hs hopcode harguments

theorem sendCommand_ok (hu : t.urgent = 0) (ht : t.Sound)
    (h : Ends ((host timing).writeWords s.cin (LoggedCommand.fromHost opcode arguments).words) s
      (.ok t.cin) t) :
    Ends ((host timing).sendCommand opcode false arguments) s (.ok ()) t.rung := by
  unfold sendCommand
  rw [if_neg (valid_iff.mpr ⟨hopcode, harguments⟩)]
  exact (Ends.lift (returns_commandIn hs)).bind <| h.discard_ok.bind <|
    (Ends.lift (returns_ring ht hu)).bind <| .lift (returns_log timing _ _)

theorem sendCommand_error {e : MailboxError}
    (h : Ends ((host timing).writeWords s.cin (LoggedCommand.fromHost opcode arguments).words) s
      (.error e) t) :
    Ends ((host timing).sendCommand opcode false arguments) s (.error e) t := by
  unfold sendCommand
  rw [if_neg (valid_iff.mpr ⟨hopcode, harguments⟩)]
  exact (Ends.lift (returns_commandIn hs)).bind h.discard_error.bind_error

end Commands

end Mailbox

end RemoteUpdate
