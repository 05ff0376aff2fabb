import RemoteUpdate.Proofs.Mailbox.Calls
import RemoteUpdate.Proofs.Mailbox.Streaming
import RemoteUpdate.Proofs.Sdm.Registers

/-!
# Framing

A device manager publishes a stream of responses, as slowly as it likes between any two words, and the
driver takes the words out of the ring and finds the responses in them. As long as it never gives up waiting
for a data word, whatever it is asked for ends at the end of a response. Once it has given up, it has
forgotten that it stands within a response, and takes the next data word for a header.
-/

namespace RemoteUpdate

/-! ### Passages -/

/-- How far a stream of words has come. -/
structure Passage where
  /-- How many words have been published. -/
  published : Nat
  /-- How many words the host has taken. -/
  taken : Nat

namespace Passage

/-- What an access of the host says of the passage, and what becomes of it. The host takes a word by moving
its cursor past it. -/
def Shows (map : RegisterMap) (stream : Nat → Response) (v w : Passage) : Access → Prop
  | .read offset value => w = v ∧
    (offset = map.responseIn → map.ring.wrap value.toNat = map.ring.wrap v.published) ∧
    (offset = map.responseOut → map.ring.wrap value.toNat = map.ring.wrap v.taken) ∧
    (offset = map.responseSlot (map.ring.wrap v.taken) → v.taken < v.published →
      value = Response.word stream v.taken)
  | .write offset value =>
    (offset ≠ map.responseOut → w = v) ∧
    (offset = map.responseOut → v.taken < v.published →
      value = .ofNat (map.ring.next (map.ring.wrap v.taken)) → w = { v with taken := v.taken + 1 })
  | .delay _ => w = v

end Passage

/-- Behind the registers is a device manager that publishes the words of a stream of responses. Before any
access it may publish as many as it likes, or none. -/
def Streams {ρ : Type} [RegisterBlock ρ] (map : RegisterMap) (I : ρ → Prop) (stream : Nat → Response)
    (passage : ρ → Passage) : Prop :=
  ∀ {a s t}, I s → Serves a s t → ∃ published, (passage s).published ≤ published ∧
    ({ passage s with published } : Passage).Shows map stream (passage t) a

/-! ### Keeping abreast -/

namespace Passage

open Mailbox

variable {map : RegisterMap} {stream : Nat → Response} {v w : Passage} {p q : Stage} {a : Access}
  {past : Trail}

/-- What is so at a stage of the driver: it knows which word is next. -/
def At (map : RegisterMap) (stream : Nat → Response) (v : Passage) : Stage → Prop
  | .idle | .looking | .heard | .cleared => True
  | .offering cin _ | .roomy cin | .placed cin _ => cin < map.commandSlots
  | .reading rout _ => rout = map.ring.wrap v.taken
  | .pending rout => rout = map.ring.wrap v.taken ∧ v.taken < v.published
  | .held rout word => rout = map.ring.wrap v.taken ∧ v.taken < v.published ∧
    word = Response.word stream v.taken
  | .calling => False

/-- The driver has taken the first words of the stream, and knows which word is next. -/
structure Abreast (map : RegisterMap) (stream : Nat → Response) (p : Stage) (past : Trail) (v : Passage) :
    Prop where
  stage : v.At map stream p
  behind : v.taken ≤ v.published
  taken : past.taken = (List.range v.taken).map (Response.word stream)

theorem Abreast.publish (h : v.Abreast map stream p past) {published : Nat} (hle : v.published ≤ published) :
    Abreast map stream p past { v with published } := by
  obtain ⟨hstage, hbehind, htaken⟩ := h
  refine ⟨?_, hbehind.trans hle, htaken⟩
  cases p with
  | pending rout => exact ⟨hstage.1, hstage.2.trans_le hle⟩
  | held rout word => exact ⟨hstage.1, hstage.2.1.trans_le hle, hstage.2.2⟩
  | _ => exact hstage

/-- The driver may begin anew between two responses, and between two words as well. -/
theorem Abreast.reopen (h : v.Abreast map stream p past) (hq : Errand.Rests q) :
    v.Abreast map stream q past := by
  refine ⟨?_, h.behind, h.taken⟩
  rcases hq with rfl | rfl <;> trivial

theorem Abreast.stay (h : v.Abreast map stream p past) (hsame : w = v) (hq : v.At map stream q)
    (htaken : Trail.taken [(p, a)] = []) : w.Abreast map stream q (past ++ [(p, a)]) := by
  subst hsame
  refine ⟨hq, h.behind, ?_⟩
  rw [taken_append, htaken, List.append_nil, h.taken]

/-- Whatever access the driver makes, it keeps abreast of the stream. -/
theorem Abreast.step {ρ : Type} {m : Mailbox ρ} (hmap : m.map.Separate) (move : Move m p a q)
    (h : v.Abreast m.map stream p past) (hshows : v.Shows m.map stream w a) :
    w.Abreast m.map stream q (past ++ [(p, a)]) := by
  have hdoorbell := hmap.doorbell
  have hout := hmap.responseOut
  simp only [List.mem_cons, List.not_mem_nil, or_false, not_or] at hdoorbell hout
  obtain ⟨-, -, -, hresponseOut, -⟩ := hdoorbell
  have hcommands : 0 < m.map.commandSlots := Nat.pos_of_ne_zero hmap.commandSlots
  have hstage := h.stage
  cases move with
  | rest micros => exact h.stay hshows trivial rfl
  | start value => exact h.stay hshows.1 (Ring.wrap_lt hcommands _) rfl
  | full hfull => exact h.stay hshows.1 hstage rfl
  | nudge cin delays => exact h.stay (hshows.1 (Ne.symm hout.2)) hstage rfl
  | stall hlt micros => exact h.stay hshows hstage rfl
  | room hfull => exact h.stay hshows.1 hstage rfl
  | place cin word =>
    have hcommandSlot := hmap.commands cin hstage
    simp only [List.mem_cons, List.not_mem_nil, or_false, not_or] at hcommandSlot
    exact h.stay (hshows.1 hcommandSlot.1) hstage rfl
  | push cin word => exact h.stay (hshows.1 (Ne.symm hout.1)) (Ring.next_lt hcommands _) rfl
  | ring cin delays => exact h.stay (hshows.1 (Ne.symm hout.2)) trivial rfl
  | status value => exact hstage.elim
  | call opcode => exact hstage.elim
  | shout => exact hstage.elim
  | confirm value => exact h.stay hshows.1 trivial rfl
  | quiet hvalue => exact h.stay hshows.1 trivial rfl
  | pass hvalue => exact h.stay hshows.1 trivial rfl
  | sleep micros => exact h.stay hshows trivial rfl
  | hear hvalue => exact h.stay hshows.1 trivial rfl
  | clear => exact h.stay (hshows.1 hresponseOut) trivial rfl
  | locate value => exact h.stay hshows.1 (hshows.2.2.1 rfl) rfl
  | drained hvalue => exact h.stay hshows.1 trivial rfl
  | empty hvalue => exact h.stay hshows.1 hstage rfl
  | await hlt micros => exact h.stay hshows hstage rfl
  | @found rout delays value hne =>
    -- the cursors differ, so not every word has been taken
    have hlt : v.taken < v.published := by
      refine lt_of_le_of_ne h.behind fun heq => hne ?_
      refine (hshows.2.1 rfl).trans ?_
      rw [← heq]
      exact hstage.symm
    exact h.stay hshows.1 ⟨hstage, hlt⟩ rfl
  | take rout word =>
    obtain ⟨rfl, hlt⟩ := hstage
    exact h.stay hshows.1 ⟨rfl, hlt, hshows.2.2.2 rfl hlt⟩ rfl
  | release rout word =>
    obtain ⟨rfl, hlt, rfl⟩ := hstage
    obtain rfl : w = _ := hshows.2 rfl hlt rfl
    refine ⟨?_, hlt, ?_⟩
    · exact Nat.mod_add_mod v.taken m.map.responseSlots 1
    · rw [taken_append, h.taken, List.range_succ, List.map_append]
      rfl

end Passage

/-! ### A device manager that streams -/

namespace Streamer

def passage (s : Streamer) : Passage where
  published := s.published
  taken := s.taken

theorem register_slot (s : Streamer) :
    s.register (({} : RegisterMap).responseSlot (ring.wrap s.taken)) = Response.word s.stream s.taken := by
  have hlt : ring.wrap s.taken < 16 := Ring.wrap_lt (by decide) _
  obtain ⟨hother, -, hslot⟩ := EmulatedSdm.slots_decoded.2 ⟨ring.wrap s.taken, hlt⟩
  simp only [List.mem_cons, List.not_mem_nil, or_false, not_or] at hother
  obtain ⟨-, hout, -, -, -, hin, -, hbell, -⟩ := hother
  have hpending : ring.pending (ring.wrap s.taken) s.taken = 0 := by
    show (s.taken % 16 + 16 - s.taken % 16) % 16 = 0
    omega
  unfold register
  rw [if_neg hin, if_neg hout, if_neg hbell, hslot]
  show Response.word s.stream (s.taken + ring.pending (ring.wrap s.taken) s.taken) = _
  rw [hpending, Nat.add_zero]

theorem streams (stream : Nat → Response) :
    Streams {} (fun s : Streamer => s.stream = stream) stream passage := by
  -- publishing comes before the access is served, so the access is compared with the stirred state
  rintro a s t rfl hserves
  obtain ⟨hstream, htaken, hpublished⟩ := s.stirred_spec
  refine ⟨s.stirred.published, hpublished, ?_⟩
  have hpassage : { s.passage with published := s.stirred.published } = s.stirred.passage := by
    rw [passage, passage, htaken]
  rw [hpassage, ← hstream]
  cases a with
  | read offset value =>
    obtain ⟨rfl, rfl⟩ := hserves.unique (s.serves_read offset)
    refine ⟨rfl, ?_, ?_, ?_⟩
    · rintro rfl
      exact wrap_cursor _
    · rintro rfl
      exact wrap_cursor _
    · rintro rfl -
      exact s.stirred.register_slot
  | write offset value =>
    obtain ⟨-, rfl⟩ := hserves.unique (s.serves_write offset value)
    constructor
    · intro hout
      unfold written
      rw [if_neg hout]
      split <;> rfl
    · rintro rfl - rfl
      have hnext : ring.pending (UInt32.ofNat (ring.next (ring.wrap s.stirred.taken))).toNat
          s.stirred.taken = 1 := by
        show ((UInt32.ofNat ((s.stirred.taken % 16 + 1) % 16)).toNat + 16 - s.stirred.taken % 16) % 16 = 1
        rw [UInt32.toNat_ofNat']
        omega
      unfold written passage
      rw [if_pos rfl]
      exact congrArg (Passage.mk s.stirred.published) (congrArg (s.stirred.taken + ·) hnext)
  | delay micros =>
    obtain ⟨-, rfl⟩ := hserves.unique (s.serves_delay micros)
    rfl

end Streamer

/-! ### Boundaries -/

namespace Mailbox

section Boundaries

variable {ρ : Type} {m : Mailbox ρ}

theorem GivesUp.length_le {accesses : List Access} (h : m.GivesUp accesses) :
    2 * m.timing.dataPolls ≤ accesses.length := by
  obtain ⟨values, rout, hlength, -, hpolls⟩ := h
  have hcost : (values.flatMap m.poll).length = 2 * values.length := by
    clear hlength hpolls
    induction values with
    | nil => rfl
    | cons value values ih =>
      rw [List.flatMap_cons, List.length_append, ih, List.length_cons]
      show 2 + _ = _
      omega
  rw [← hlength, ← hcost]
  exact hpolls.length_le

/-- If the driver never gives up, what it takes on several trails is made of whole responses. -/
theorem framed_flatten {trails : List Trail} (h : ∀ trail ∈ trails, m.Framed trail)
    (hpatient : ¬ m.GivesUp (Trail.accesses trails.flatten)) :
    ∃ rs, Trail.taken trails.flatten = Response.wire rs := by
  induction trails with
  | nil => exact ⟨[], rfl⟩
  | cons trail trails ih =>
    rw [List.flatten_cons] at hpatient ⊢
    obtain ⟨⟨haul, htaken, hcut⟩, hrest⟩ := List.forall_mem_cons.mp h
    obtain ⟨rs, hrs⟩ := ih hrest fun hgives => hpatient hgives.after
    have hwhole : haul.cut = none := by
      by_contra hne
      exact hpatient (hcut hne).before
    refine ⟨haul.whole ++ rs, ?_⟩
    rw [taken_append, htaken, hrs, Haul.words, hwhole, Response.wire_append]
    simp

end Boundaries

variable {ρ : Type} [RegisterBlock ρ] {I : ρ → Prop} {stream : Nat → Response} {passage : ρ → Passage}

/-- Whatever the driver has been asked for, urgent commands and words taken as they come apart, the read
cursor stands at the end of a response afterwards, or the driver has given up waiting for a data word: it
has polled for it as often as the timing allows, and none of these polls has found it. -/
theorem framing_kept (hI : Responsive I) (m : Mailbox (Recorder ρ)) (hmap : m.map.Separate)
    (hstreams : Streams m.map I stream passage) {s : ρ} (hs : I s) (hstart : (passage s).taken = 0)
    (errands : List Errand) (hframing : ∀ errand ∈ errands, errand.Framing) :
    ∃ r, Returns (Errand.run m errands) { block := s } () r ∧
      ((∃ n, (passage r.block).taken = (Response.wire (Response.first stream n)).length) ∨
        m.GivesUp r.accesses.toList) := by
  obtain ⟨⟨⟩, r, trails, hrun, -, hcourse, hframed⟩ := Errand.undertakes_run (Recorder.responsive hI)
    hmap.commandSlots hmap.responseSlots errands { block := s } hs
  refine ⟨r, hrun, ?_⟩
  -- a driver that gave up in a response stands within it, which the other side allows for
  by_cases hgives : m.GivesUp r.accesses.toList
  · exact .inr hgives
  refine .inl ?_
  have habreast : (passage s).Abreast m.map stream .idle [] := by
    refine ⟨trivial, ?_, ?_⟩
    · rw [hstart]
      exact Nat.zero_le _
    · rw [hstart]
      rfl
  let P (p : Stage) (past : Trail) (r : Recorder ρ) : Prop :=
    I r.block ∧ (passage r.block).Abreast m.map stream p past
  have step : ∀ {p a q past} {r t : Recorder ρ}, Move m p a q → Serves a r t → P p past r →
      P q (past ++ [(p, a)]) t := by
    rintro p a q past r t move hserves ⟨hblock, hpast⟩
    have hserved := Recorder.serves hI hblock hserves
    obtain ⟨published, hle, hshows⟩ := hstreams hblock hserved
    exact ⟨hI.keeps hserved hblock, (hpast.publish hle).step hmap move hshows⟩
  have reopen : ∀ {p q past} {r : Recorder ρ}, Errand.Rests q → P p past r → P q past r := by
    rintro p q past r hq ⟨hblock, hpast⟩
    exact ⟨hblock, hpast.reopen hq⟩
  have hbegin : P .idle [] { block := s } := ⟨hs, habreast⟩
  obtain ⟨p, -, hend⟩ := hcourse.keeps (P := P) step reopen [] hbegin
  have haccesses : r.accesses.toList = Trail.accesses trails.flatten := hcourse.recorded
  -- every word taken is then part of a whole response
  obtain ⟨rs, hrs⟩ := framed_flatten (hframed hframing) (haccesses ▸ hgives)
  refine ⟨rs.length, Response.boundary ?_⟩
  rw [← hrs, ← hend.taken, List.nil_append]

/-- A stream that begins with a response to another client, whose last data word looks like the header of
an answer. The rest are answers with one data word. -/
def guised : Nat → Response
  | 0 => ⟨⟨0xc1002000⟩, [7, 0xb1000000], by decide⟩
  | _ => ⟨⟨0xb1001000⟩, [0x1234], by decide⟩

def lingering : Streamer where
  stream := guised
  plan := List.replicate 5 [] ++ [[.publish, .publish, .announce]] ++ List.replicate 20 [] ++
    [[.publish, .publish]] ++ List.replicate 20 [] ++ [[.publish]]

theorem framing_kept_lingering : ∃ r,
    Returns (Errand.run ({} : Mailbox (Recorder Streamer)) [.send 4 [] 1, .drain 2])
      { block := lingering } () r ∧
      (∃ n, r.block.taken = (Response.wire (Response.first guised n)).length) ∧ r.block.taken = 5 := by
  obtain ⟨r, hrun, hkept⟩ := framing_kept (Streamer.responsive guised) {} RegisterMap.separate
    (Streamer.streams guised) (s := lingering) rfl rfl [.send 4 [] 1, .drain 2] (by simp [Errand.Framing])
  obtain ⟨hcount, htaken⟩ := Prod.mk.inj <| hrun.computed
    (f := fun _ r => (r.accesses.toList.length, r.block.taken)) (c := (54, 5)) (by decide +kernel)
  refine ⟨r, hrun, hkept.resolve_right fun hgives => ?_, htaken⟩
  have hlength := hgives.length_le
  rw [hcount] at hlength
  exact absurd hlength (by decide)

/-- A driver that polls eight times for each data word. -/
def brisk : Mailbox Streamer where
  timing := { dataPolls := 8 }

/-- A device manager that does not publish the last data word of a response before such a driver has given
up. -/
def dawdling : Streamer where
  stream := guised
  plan := List.replicate 5 [] ++ [[.publish, .publish, .announce]] ++ List.replicate 24 [] ++
    [[.publish, .publish, .publish, .announce]]

/-- A driver that has given up within a response takes the next data word for a header, here for that of the
answer to its next command. -/
theorem framing_lost : Streams brisk.map (fun s : Streamer => s.stream = guised) guised Streamer.passage ∧
    dawdling.passage.taken = 0 ∧ ∃ a t b u,
      Returns (brisk.attempt 4 [] false 1) dawdling a t ∧ a.result = .error .timeout ∧
      (∀ n, t.taken ≠ (Response.wire (Response.first guised n)).length) ∧
      Returns (brisk.attempt 4 [] false 1) t b u ∧ b.result = .ok 0 := by
  have attempt : ∀ s : Streamer, s.stream = guised → ∃ a t,
      Returns (brisk.attempt 4 [] false 1) s a t ∧ t.stream = guised := by
    intro s hs
    obtain ⟨a, t, -, -, hrun, ht, -⟩ := conducts_attempt_ordinary (m := brisk) (Streamer.responsive guised)
      (by decide) (by decide) 4 [] 1 s hs
    exact ⟨a, t, hrun, ht⟩
  obtain ⟨a, t, hfirst, ht⟩ := attempt dawdling rfl
  obtain ⟨b, u, hsecond, -⟩ := attempt t ht
  have hboth : Returns (do
      let a ← brisk.attempt 4 [] false 1
      let t ← get
      let b ← brisk.attempt 4 [] false 1
      return (a.result, t.taken, b.result)) dawdling (a.result, t.taken, b.result) u :=
    hfirst.bind <| (Returns.get t).bind <| hsecond.bind (.pure _ u)
  obtain ⟨ha, htaken, hb⟩ : a.result = .error .timeout ∧ t.taken = 2 ∧ b.result = .ok 0 := by
    have hcomputed := hboth.computed (f := fun results _ => results) (c := (.error .timeout, 2, .ok 0))
      (by decide +kernel)
    simpa only [Prod.mk.injEq] using hcomputed
  refine ⟨Streamer.streams guised, rfl, a, t, b, u, hfirst, ha, ?_, hsecond, hb⟩
  intro n hn
  rw [htaken] at hn
  -- the first response alone has three words
  cases n with
  | zero => exact absurd hn (by decide)
  | succ n =>
    have hlength : (Response.wire (Response.first guised 1)).length ≤ 2 :=
      (Response.wire_first_mono guised (Nat.succ_le_succ (Nat.zero_le n))).trans hn.ge
    exact absurd hlength (by decide)

end Mailbox

end RemoteUpdate
