import RemoteUpdate.Proofs.Mailbox.Conduct
import RemoteUpdate.Proofs.Mailbox.Reading

/-!
# Draining the response ring

Draining drops whole responses from the front of what the device manager has for the host. Its words need
not be in the ring yet: each word that is taken lets another one in, so that the driver never waits, however
much longer than the ring a response is. This presupposes that the slots of the ring are registers of their
own: a ring that reaches up to the doorbells loses words, and framing with them.
-/

namespace RemoteUpdate

open EmulatedSdm

namespace Recorder

/-- The recorded block is this device manager, and these are the delays so far. -/
def Undelayed (delays : List Nat) (r : Recorder EmulatedSdm) (s : EmulatedSdm) : Prop :=
  r.block = s ∧ r.delays = delays

/-- Reads and writes are recorded, but they are no delays. -/
theorem relays_undelayed (delays : List Nat) : Relays (Undelayed delays) where
  read m offset s := by
    rintro r ⟨rfl, hdelays⟩
    have hread : Returns (RegisterBlock.read offset) r.block (r.block.readRegister offset) r.block :=
      (Returns.get r.block).bind (.pure _ r.block)
    refine ⟨_, (returns_onBlock hread).bind <| (Returns.modify _ _).bind (.pure _ _), rfl, ?_⟩
    simpa [Recorder.delays] using hdelays
  write m := by
    rintro offset value s t h r ⟨rfl, hdelays⟩
    refine ⟨_, (Returns.modify _ r).bind (returns_onBlock (r := { r with accesses := _ }) h), rfl, ?_⟩
    simpa [Recorder.delays] using hdelays

end Recorder

namespace Mailbox

open Response (wire)

variable {ρ : Type} [RegisterBlock ρ] {R : ρ → EmulatedSdm → Prop} {m : Mailbox ρ} {s t : EmulatedSdm}

/-- By induction on how many responses may still be dropped: as long as there is a response, its header is
at the cursor, and what follows is read to the last word without waiting. -/
theorem yields_drainFrom (hR : Relays R) (hm : Spacious m) (limit : Nat) {rs : List Response} (dropped : Nat)
    (h : Reduced m s (wire rs) t) : ∃ u,
      Yields R (drain.go m limit dropped t.rout) t (dropped + min limit rs.length) u ∧
        Reduced m s (wire (rs.drop limit)) u := by
  induction limit generalizing rs t dropped with
  | zero => exact ⟨t, by simpa [drain.go] using .pure dropped t, h⟩
  | succ limit ih =>
    unfold drain.go
    cases rs with
    | nil =>
      -- nothing waits, so the cursors meet and the driver stops
      have hidle : t.rin = t.rout :=
        h.faces.ringed.responseWords_eq_nil.mp (List.append_eq_nil_iff.mp h.queue).1
      refine ⟨t, (yields_responsePending hR h.faces).bind ?_, h⟩
      rw [hidle]
      simpa using .pure dropped t
    | cons r rs =>
      obtain ⟨hpending, hheader, hdata⟩ := yields_word hR hm h
      obtain ⟨u, hread, hu⟩ := yields_readData hR hm r.data hdata
      obtain ⟨v, hgo, hv⟩ := ih (dropped + 1) hu
      rw [r.whole] at hread
      have hcount : dropped + min (limit + 1) (rs.length + 1) = dropped + 1 + min limit rs.length := by omega
      refine ⟨v, ?_, hv⟩
      rw [List.length_cons, hcount]
      refine (yields_responsePending hR h.faces).bind ?_
      rw [if_pos (bne_iff_ne.mpr hpending)]
      exact hheader.bind <| hread.bind <| (Yields.log m _ u).bind hgo

theorem yields_drain (hR : Relays R) (hm : Spacious m) (limit : Nat) {rs : List Response}
    (h : Reduced m s (wire rs) t) : ∃ u,
      Yields R (m.drain limit) t (min limit rs.length) u ∧ Reduced m s (wire (rs.drop limit)) u := by
  have hcleared : Reduced m s (wire rs) (if t.Raised then { t with doorbell := 0 } else t) := by
    split
    · exact ⟨h.faces.congr rfl ⟨h.faces.ringed.rin, h.faces.ringed.rout, h.faces.ringed.responseCells⟩,
        h.published, h.core, h.queue⟩
    · exact h
  obtain ⟨u, hgo, hu⟩ := yields_drainFrom hR hm limit 0 hcleared
  rw [Nat.zero_add] at hgo
  refine ⟨u, ?_, hu⟩
  exact (yields_takeDoorbell hR h.faces).discard.bind <|
    (yields_responseCursor hR hcleared.faces).bind hgo

/-- Draining drops as many whole responses as it may, or all there are, and leaves the others as they are.
It never waits, and it touches nothing but the response ring, the outbox and the doorbell. Once it has
dropped all responses there is nothing to drop. -/
theorem drain_drops_whole (m : Mailbox (Recorder EmulatedSdm)) (hm : Spacious m) (r : Recorder EmulatedSdm)
    (hfaces : Faces m r.block) (hpublished : r.block.Published) (rs : List Response)
    (hqueue : r.block.queue = wire rs) (limit : Nat) : ∃ r',
      Returns (m.drain limit) r (min limit rs.length) r' ∧
      r'.block.queue = wire (rs.drop limit) ∧ Faces m r'.block ∧ r'.block.Published ∧
      r'.block.core = r.block.core ∧ r'.delays = r.delays ∧
      (rs.length ≤ limit → ∀ again, ∃ r'', Returns (m.drain again) r' 0 r'') := by
  have hR := Recorder.relays_undelayed r.delays
  obtain ⟨t, hdrain, ht⟩ := yields_drain hR hm limit ⟨hfaces, hpublished, rfl, hqueue⟩
  obtain ⟨r', hreturns, rfl, hdelays⟩ := hdrain r ⟨rfl, rfl⟩
  refine ⟨r', hreturns, ht.queue, ht.faces, ht.published, ht.core, hdelays, fun hall again => ?_⟩
  rw [List.drop_eq_nil_of_le hall] at ht
  obtain ⟨_, hagain, -⟩ := yields_drain hR hm again ht
  rw [List.length_nil, Nat.min_zero] at hagain
  obtain ⟨r'', hreturns', -⟩ := hagain r' ⟨rfl, hdelays⟩
  exact ⟨r'', hreturns'⟩

/-- Three responses, one of them longer than a ring of two slots. -/
def longResponses : List Response :=
  [⟨⟨0xb1003000⟩, [1, 2, 3], by decide⟩, ⟨⟨0xb1000001⟩, [], by decide⟩, ⟨⟨0xc1001000⟩, [0xb1003000], by decide⟩]

def narrow : EmulatedSdm :=
  { fresh { responseSlots := 2 } with
    rin := 1
    responseCells := #[0xb1003000, 0]
    outbox := [1, 2, 3, 0xb1000001, 0xc1001000, 0xb1003000] }

theorem drain_drops_whole_narrow : ∃ r',
    Returns (drain { map := { responseSlots := 2 } } 2) ({ block := narrow } : Recorder EmulatedSdm) 2 r' ∧
      r'.block.queue = [0xc1001000, 0xb1003000] := by
  have hfaces : Faces ({ map := { responseSlots := 2 } } : Mailbox (Recorder EmulatedSdm)) narrow := by
    refine ⟨rfl, ?_, ?_⟩ <;> constructor <;> decide
  obtain ⟨r', hreturns, hleft, -⟩ := drain_drops_whole { map := { responseSlots := 2 } } ⟨by decide, by decide⟩
    { block := narrow } hfaces (.inr (by decide)) longResponses (by decide) 2
  exact ⟨r', hreturns, hleft⟩

/-- A response ring with so many slots that they reach past the doorbells, and in it a response whose header
is in the slot at the doorbell of the host. -/
def overlapping : EmulatedSdm :=
  { fresh { responseSlots := 300 } with
    rin := 216
    rout := 208
    responseCells := (Array.replicate 300 0).setIfInBounds 208 0xb1007000 }

def zeros : Response :=
  ⟨⟨0xb1007000⟩, List.replicate 7 0, by decide⟩

/-- The host reads the header as 0, and the words after it as further headers. -/
theorem drain_counts_words : overlapping.Ringed ∧ overlapping.Published ∧ overlapping.queue = wire [zeros] ∧
    Spacious ({ map := overlapping.map } : Mailbox (Recorder EmulatedSdm)) ∧
    ¬ ∃ r', Returns (drain { map := overlapping.map } 100) ({ block := overlapping } : Recorder EmulatedSdm)
      (min 100 [zeros].length) r' := by
  refine ⟨⟨by decide, by decide, by decide +kernel⟩, .inl rfl, by decide +kernel, ⟨by decide, by decide⟩, ?_⟩
  rintro ⟨r', hreturns⟩
  have hcount := hreturns.computed (f := fun dropped _ => dropped) (c := 8) (by decide +kernel)
  exact absurd hcount (by decide)

end Mailbox

end RemoteUpdate
