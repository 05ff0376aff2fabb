import RemoteUpdate.Proofs.Sdm.Answers

/-!
# Commands word by word

A stream of words is a sequence of commands, and the device manager that absorbs the words has executed
the commands that are complete and holds the rest of the last one. Words may be absorbed from a ring early
or late with the same effect.
-/

namespace RemoteUpdate

/-! ### Streams -/

/-- What has been received of a stream: the commands that are complete, and one that is not. -/
structure Received where
  complete : List LoggedCommand := []
  part : Option LoggedCommand := none

/-- A command with one more word, the first of which is its header. -/
def extended (word : UInt32) : Option LoggedCommand → LoggedCommand
  | some c => { c with arguments := c.arguments ++ [word] }
  | none => ⟨⟨word⟩, []⟩

namespace Received

def next (g : Received) (word : UInt32) : Received :=
  let command := extended word g.part
  if command.arguments.length < command.header.length then { g with part := some command }
  else ⟨g.complete ++ [command], none⟩

theorem prefix_next (g : Received) (word : UInt32) : g.complete <+: (g.next word).complete := by
  unfold next
  simp only
  split
  · exact List.prefix_rfl
  · exact List.prefix_append _ _

theorem prefix_all (g : Received) (words : List UInt32) :
    g.complete <+: (words.foldl next g).complete := by
  induction words generalizing g with
  | nil => exact List.prefix_rfl
  | cons word words ih => exact (prefix_next g word).trans (ih (g.next word))

/-- Words that leave nothing incomplete complete a command. -/
theorem complete_ne {g : Received} {words : List UInt32} (h : words ≠ [])
    (hpart : (words.foldl next g).part = none) : (words.foldl next g).complete ≠ g.complete := by
  obtain ⟨front, last, rfl⟩ := List.eq_nil_or_concat words |>.resolve_left h
  rw [List.concat_eq_append, List.foldl_append] at hpart ⊢
  rw [List.foldl_cons, List.foldl_nil] at hpart ⊢
  have hfront := (prefix_all g front).length_le
  generalize front.foldl next g = g' at hpart hfront ⊢
  unfold next at hpart ⊢
  simp only at hpart ⊢
  split
  next hlt => simp [hlt] at hpart
  next =>
    intro heq
    have hlength := congrArg List.length heq
    rw [List.length_append, List.length_singleton] at hlength
    omega

end Received

/-! ### Whole commands -/

namespace LoggedCommand

def words (c : LoggedCommand) : List UInt32 :=
  c.header.word :: c.arguments

/-- The command has the arguments that its header announces. -/
def Whole (c : LoggedCommand) : Prop :=
  c.arguments.length = c.header.length

/-- A command as the host sends it. -/
def fromHost (opcode : UInt32) (arguments : List UInt32) : LoggedCommand :=
  ⟨CommandHeader.make hostClient hostTransaction arguments.length false opcode, arguments⟩

theorem whole_fromHost {opcode : UInt32} {arguments : List UInt32}
    (h : arguments.length ≤ maxArguments) : (fromHost opcode arguments).Whole := by
  unfold Whole fromHost
  rw [CommandHeader.length_make (by unfold maxArguments at h; omega)]

end LoggedCommand

namespace Received

variable {c : LoggedCommand} {cs : List LoggedCommand}

theorem next_arguments (h : CommandHeader) {before after : List UInt32}
    (hlt : before.length + after.length < h.length) :
    after.foldl next ⟨cs, some ⟨h, before⟩⟩ = ⟨cs, some ⟨h, before ++ after⟩⟩ := by
  induction after generalizing before with
  | nil => simp
  | cons word after ih =>
    rw [List.length_cons] at hlt
    have hone : before.length + 1 < h.length := by omega
    have hrest : (before ++ [word]).length + after.length < h.length := by simp; omega
    rw [List.foldl_cons]
    simp only [next, extended, List.length_append, List.length_singleton, hone, if_true]
    rw [ih hrest, List.append_assoc, List.singleton_append]

theorem next_front {front : List UInt32} (h : front.length < c.header.length) :
    (c.header.word :: front).foldl next ⟨cs, none⟩ = ⟨cs, some ⟨c.header, front⟩⟩ := by
  have hpos : 0 < c.header.length := by omega
  rw [List.foldl_cons]
  simp only [next, extended, List.length_nil, hpos, if_true]
  rw [next_arguments c.header (by simpa using h), List.nil_append]

theorem next_words (hc : c.Whole) : c.words.foldl next ⟨cs, none⟩ = ⟨cs ++ [c], none⟩ := by
  obtain ⟨header, arguments⟩ := c
  unfold LoggedCommand.Whole at hc
  rcases List.eq_nil_or_concat arguments with rfl | ⟨front, last, rfl⟩
  · simp_all [LoggedCommand.words, next, extended]
  · rw [List.concat_eq_append] at hc ⊢
    have hlength : front.length + 1 = header.length := by simpa using hc
    have hfront : (header.word :: front).foldl next ⟨cs, none⟩ = ⟨cs, some ⟨header, front⟩⟩ :=
      next_front (c := ⟨header, front⟩) (show front.length < header.length by omega)
    rw [LoggedCommand.words, ← List.cons_append, List.foldl_append, hfront]
    simp [next, extended, hlength]

theorem next_part (hc : c.Whole) {front rest : List UInt32} (h : c.words = front ++ rest)
    (hrest : rest ≠ []) : ∃ part, front.foldl next ⟨cs, none⟩ = ⟨cs, part⟩ := by
  cases front with
  | nil => exact ⟨none, rfl⟩
  | cons word front =>
    rw [LoggedCommand.words, List.cons_append, List.cons.injEq] at h
    obtain ⟨rfl, harguments⟩ := h
    have hlt : front.length < c.header.length := by
      have := List.length_pos_iff.mpr hrest
      rw [← hc, harguments, List.length_append]
      omega
    exact ⟨_, next_front hlt⟩

end Received

namespace EmulatedSdm

/-! ### Execution -/

/-- The device manager after it has executed commands one after the other. -/
def after (s : EmulatedSdm) (cs : List LoggedCommand) : EmulatedSdm :=
  cs.foldl (fun u c => executed c u) s

/-- The responses that commands draw one after the other. -/
def drawn (s : EmulatedSdm) : List LoggedCommand → List Response
  | [] => []
  | c :: cs => responses c s ++ drawn (executed c s) cs

theorem after_append (s : EmulatedSdm) (cs ds : List LoggedCommand) :
    s.after (cs ++ ds) = (s.after cs).after ds :=
  List.foldl_append

theorem drawn_append (s : EmulatedSdm) (cs ds : List LoggedCommand) :
    s.drawn (cs ++ ds) = s.drawn cs ++ (s.after cs).drawn ds := by
  induction cs generalizing s with
  | nil => rfl
  | cons c cs ih =>
    rw [List.cons_append, drawn, drawn, ih, List.append_assoc]
    rfl

theorem log_after (s : EmulatedSdm) (cs : List LoggedCommand) :
    (s.after cs).log.toList = s.log.toList ++ cs := by
  induction cs generalizing s with
  | nil => exact (List.append_nil _).symm
  | cons c cs ih =>
    show ((executed c s).after cs).log.toList = _
    rw [ih, show (executed c s).log = s.log.push c from rfl, Array.toList_push, List.append_assoc,
      List.singleton_append]

theorem outbox_after (s : EmulatedSdm) (cs : List LoggedCommand) :
    (s.after cs).outbox = s.outbox ++ Response.wire (s.drawn cs) := by
  induction cs generalizing s with
  | nil => exact (List.append_nil _).symm
  | cons c cs ih =>
    show ((executed c s).after cs).outbox = _
    rw [ih, show (executed c s).outbox = s.outbox ++ Response.wire (responses c s) from rfl, drawn,
      Response.wire_append, List.append_assoc]

theorem mem_drawn {s : EmulatedSdm} {cs : List LoggedCommand} {r : Response} (h : r ∈ s.drawn cs) :
    ∃ (i : Nat) (hi : i < cs.length), r ∈ responses cs[i] (s.after (cs.take i)) := by
  induction cs generalizing s with
  | nil => exact absurd h List.not_mem_nil
  | cons c cs ih =>
    rcases List.mem_append.mp h with hfirst | hlater
    · exact ⟨0, Nat.succ_pos _, hfirst⟩
    · obtain ⟨i, hi, hmem⟩ := ih hlater
      exact ⟨i + 1, Nat.succ_lt_succ hi, hmem⟩

/-! ### Absorption -/

/-- The device manager after it has seen one more word of a command. -/
def absorb (s : EmulatedSdm) (word : UInt32) : EmulatedSdm :=
  let command := extended word s.partialCommand
  if command.arguments.length < command.header.length then
    { s with partialCommand := some command }
  else executed command { s with partialCommand := none }

/-- The device manager after it has executed what is complete, holding what is not. -/
def reached (s : EmulatedSdm) (g : Received) : EmulatedSdm :=
  { s.after g.complete with partialCommand := g.part }

theorem reached_part (s : EmulatedSdm) : s.reached ⟨[], s.partialCommand⟩ = s := rfl

theorem absorb_reached (s : EmulatedSdm) (g : Received) (word : UInt32) :
    (s.reached g).absorb word = s.reached (g.next word) := by
  have part : (s.reached g).partialCommand = g.part := rfl
  unfold absorb Received.next
  rw [part]
  simp only
  split
  · rfl
  · show executed _ { s.after g.complete with partialCommand := none } = _
    rw [executed_partial, reached, after_append]
    rfl

theorem absorbAll_reached (s : EmulatedSdm) (g : Received) (words : List UInt32) :
    words.foldl absorb (s.reached g) = s.reached (words.foldl Received.next g) := by
  induction words generalizing g with
  | nil => rfl
  | cons word words ih => rw [List.foldl_cons, absorb_reached, ih, List.foldl_cons]

theorem absorb_words {c : LoggedCommand} {s : EmulatedSdm} (hs : s.partialCommand = none)
    (hc : c.Whole) : c.words.foldl absorb s = executed c s := by
  have h := absorbAll_reached s ⟨[], s.partialCommand⟩ c.words
  rw [reached_part, hs, Received.next_words hc] at h
  have forget : ({ s with partialCommand := none } : EmulatedSdm) = s := by rw [← hs]
  rw [h]
  show { executed c s with partialCommand := none } = _
  rw [← executed_partial, forget]

theorem absorb_part {c : LoggedCommand} {s : EmulatedSdm} (hs : s.partialCommand = none)
    (hc : c.Whole) {front rest : List UInt32} (h : c.words = front ++ rest) (hrest : rest ≠ []) :
    ∃ p, front.foldl absorb s = { s with partialCommand := p } := by
  obtain ⟨p, hp⟩ : ∃ p, front.foldl Received.next ⟨[], none⟩ = ⟨[], p⟩ :=
    Received.next_part hc h hrest
  have hreached := absorbAll_reached s ⟨[], s.partialCommand⟩ front
  rw [reached_part, hs, hp] at hreached
  exact ⟨p, hreached⟩

/-! ### Mailboxes -/

def blank : EmulatedSdm := .fresh {}

/-- The device manager behind the mailbox of another one, with words in front of its own responses. -/
def behind (s d : EmulatedSdm) (front : List UInt32) : EmulatedSdm :=
  s.dressed d s.log s.strays (front ++ s.outbox)

theorem responses_behind (c : LoggedCommand) (s d : EmulatedSdm) (front : List UInt32) :
    responses c (s.behind d front) = responses c s := by
  unfold responses behind
  rw [answer_dressed]
  rfl

theorem executed_behind (c : LoggedCommand) (s d : EmulatedSdm) (front : List UInt32) :
    executed c (s.behind d front) = (executed c s).behind d front := by
  rw [executed, responses_behind]
  unfold executed behind
  rw [replied_dressed]
  simp [dressed]

theorem after_behind (s d : EmulatedSdm) (front : List UInt32) (cs : List LoggedCommand) :
    (s.behind d front).after cs = (s.after cs).behind d front := by
  induction cs generalizing s with
  | nil => rfl
  | cons c cs ih =>
    show (executed c (s.behind d front)).after cs = ((executed c s).after cs).behind d front
    rw [executed_behind, ih]

theorem drawn_behind (s d : EmulatedSdm) (front : List UInt32) (cs : List LoggedCommand) :
    (s.behind d front).drawn cs = s.drawn cs := by
  induction cs generalizing s with
  | nil => rfl
  | cons c cs ih => rw [drawn, drawn, responses_behind, executed_behind, ih]

theorem absorb_behind (s d : EmulatedSdm) (front : List UInt32) (word : UInt32) :
    (s.behind d front).absorb word = (s.absorb word).behind d front := by
  have partialCommand : (s.behind d front).partialCommand = s.partialCommand := rfl
  unfold absorb
  rw [partialCommand]
  simp only
  split
  · rfl
  · exact executed_behind _ { s with partialCommand := none } d front

theorem absorbAll_behind (s d : EmulatedSdm) (front words : List UInt32) :
    words.foldl absorb (s.behind d front) = (words.foldl absorb s).behind d front := by
  induction words generalizing s with
  | nil => rfl
  | cons word words ih => rw [List.foldl_cons, List.foldl_cons, absorb_behind, ih]

/-- Absorbing words leaves the mailbox alone. -/
theorem absorbAll_eq (s : EmulatedSdm) (words : List UInt32) :
    words.foldl absorb s = (words.foldl absorb s).behind s [] :=
  absorbAll_behind s s [] words

/-- Whatever words are absorbed, whole responses come out. -/
theorem outbox_absorbAll (s : EmulatedSdm) (words : List UInt32) :
    ∃ rs, (words.foldl absorb s).outbox = s.outbox ++ Response.wire rs := by
  have h := absorbAll_reached s ⟨[], s.partialCommand⟩ words
  rw [reached_part] at h
  exact ⟨_, by rw [h]; exact outbox_after s _⟩

/-! ### Without a mailbox -/

/-- The device manager without its mailbox, its log and its strays. -/
def bare (s : EmulatedSdm) : EmulatedSdm :=
  s.dressed blank #[] 0 []

/-- The device manager with its log, but without its mailbox and its strays. -/
def past (s : EmulatedSdm) : EmulatedSdm :=
  s.dressed blank s.log 0 []

theorem log_congr {s t : EmulatedSdm} (h : t.past = s.past) : t.log = s.log := by
  have hlog := congrArg EmulatedSdm.log h
  exact hlog

/-- Nothing else matters for an answer. -/
theorem answer_congr {s t : EmulatedSdm} (h : t.bare = s.bare) (c : LoggedCommand) :
    answer c t = answer c s := by
  rw [← answer_dressed blank #[] 0 [] c t, ← answer_dressed blank #[] 0 [] c s]
  exact congrArg (answer c) h

theorem bare_executed (c : LoggedCommand) (s : EmulatedSdm) :
    (executed c s).bare = (replied c s.bare).1.bare :=
  (congrArg (fun r => r.1.bare) (replied_dressed blank #[] 0 [] c s)).symm

theorem bare_after {s t : EmulatedSdm} (h : t.bare = s.bare) (cs : List LoggedCommand) :
    (t.after cs).bare = (s.after cs).bare := by
  induction cs generalizing s t with
  | nil => exact h
  | cons c cs ih => exact ih (by rw [bare_executed, bare_executed, h])

/-! ### The host's own commands -/

theorem answers_answer (opcode : UInt32) (arguments : List UInt32) (s : EmulatedSdm) :
    (answer (.fromHost opcode arguments) s).Answers := by
  simp only [Response.Answers, answer, ResponseHeader.answers, LoggedCommand.fromHost,
    ResponseHeader.client_make, ResponseHeader.transaction_make, CommandHeader.client_make,
    CommandHeader.transaction_make]
  decide

theorem not_answers_stray (opcode : UInt32) (arguments : List UInt32) :
    ¬ (stray (.fromHost opcode arguments)).Answers := by
  simp only [Response.Answers, stray, ResponseHeader.answers, LoggedCommand.fromHost,
    ResponseHeader.client_make, ResponseHeader.transaction_make, CommandHeader.client_make,
    CommandHeader.transaction_make]
  decide

end EmulatedSdm

end RemoteUpdate
