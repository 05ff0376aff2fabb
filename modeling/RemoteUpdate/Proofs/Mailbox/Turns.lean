import Mathlib.Algebra.Group.Nat.Defs
import RemoteUpdate.Proofs.Mailbox.Ring
import RemoteUpdate.Proofs.Table.Bounds

/-!
# Turns at a ring

A producer and a consumer take turns at a ring: the producer moves its cursor on unless the ring is full, the
consumer moves its own while words are pending. However long this goes on, and wherever in the ring it began,
the words between the cursors are those published and not taken (`Balanced`). The host tells a full ring by the
cursor that would run into the other one, the device manager by the room that is left; both are right.

The cursors and the capacity are 32-bit words. With every sum, difference and remainder checked (`Strict`), none
of what is computed with them overflows.
-/

namespace RemoteUpdate

namespace Ring

variable {r : Ring} {p c p' c' published taken : ℕ}

/-! ### Turns -/

/-- Which of the two moves its cursor. -/
inductive Turn where
  /-- The producer, having published a word. -/
  | publish
  /-- The consumer, having taken one. -/
  | take
deriving DecidableEq, Repr

/-- The cursors of producer and consumer after a turn, if the turn may be taken. -/
def turn? (r : Ring) : ℕ × ℕ → Turn → Option (ℕ × ℕ)
  | (p, c), .publish => if r.isFull p c then none else some (r.next p, c)
  | (p, c), .take => if 0 < r.pending p c then some (p, r.next c) else none

/-- The cursors after one turn after another, if each of them may be taken. -/
def turns? (r : Ring) (cursors : ℕ × ℕ) (turns : List Turn) : Option (ℕ × ℕ) :=
  turns.foldlM r.turn? cursors

/-- The cursors are slots, and as many words lie between them as have been published and not taken. -/
structure Balanced (r : Ring) (p c published taken : ℕ) : Prop where
  producer_lt : p < r.capacity
  consumer_lt : c < r.capacity
  pending_add : r.pending p c + taken = published

theorem balanced_start (h : p < r.capacity) : r.Balanced p p 0 0 :=
  ⟨h, h, by rw [pending_self h]⟩

theorem Balanced.publish (h : r.Balanced p c published taken) (hroom : ¬ r.isFull p c = true) :
    r.Balanced (r.next p) c (published + 1) taken where
  producer_lt := next_lt (Nat.zero_lt_of_lt h.producer_lt) p
  consumer_lt := h.consumer_lt
  pending_add := by
    rw [isFull_iff h.producer_lt h.consumer_lt] at hroom
    rw [pending_next_producer h.producer_lt h.consumer_lt (Nat.pos_of_ne_zero hroom), Nat.add_right_comm,
      h.pending_add]

theorem Balanced.take (h : r.Balanced p c published taken) (hword : 0 < r.pending p c) :
    r.Balanced p (r.next c) published (taken + 1) where
  producer_lt := h.producer_lt
  consumer_lt := next_lt (Nat.zero_lt_of_lt h.consumer_lt) c
  pending_add := by
    have hne : p ≠ c := fun heq => Nat.ne_of_gt hword ((pending_eq_zero h.producer_lt h.consumer_lt).mpr heq)
    rw [Nat.add_comm taken, ← Nat.add_assoc, pending_next_consumer h.producer_lt h.consumer_lt hne, h.pending_add]

theorem Balanced.turn {turn : Turn} (h : r.Balanced p c published taken)
    (hturn : r.turn? (p, c) turn = some (p', c')) :
    r.Balanced p' c' (published + [turn].count .publish) (taken + [turn].count .take) := by
  cases turn with
  | publish =>
    obtain ⟨hroom, hmoved⟩ := Option.ite_none_left_eq_some.mp hturn
    obtain ⟨rfl, rfl⟩ := Prod.mk.inj (Option.some.inj hmoved)
    exact h.publish hroom
  | take =>
    obtain ⟨hword, hmoved⟩ := Option.ite_none_right_eq_some.mp hturn
    obtain ⟨rfl, rfl⟩ := Prod.mk.inj (Option.some.inj hmoved)
    exact h.take hword

theorem Balanced.turns {turns : List Turn} (h : r.Balanced p c published taken)
    (hturns : r.turns? (p, c) turns = some (p', c')) :
    r.Balanced p' c' (published + turns.count .publish) (taken + turns.count .take) := by
  induction turns generalizing p c published taken with
  | nil =>
    obtain ⟨rfl, rfl⟩ := Prod.mk.inj (Option.some.inj hturns)
    exact h
  | cons turn turns ih =>
    obtain ⟨⟨p₁, c₁⟩, hturn, hrest⟩ := Option.bind_eq_some_iff.mp hturns
    have hsplit (t : Turn) : (turn :: turns).count t = [turn].count t + turns.count t := by
      rw [← List.count_append, List.singleton_append]
    rw [hsplit, hsplit, ← Nat.add_assoc, ← Nat.add_assoc]
    exact ih (h.turn hturn) hrest

/-- Unless a ring has at most two slots, no two cursors are each one slot behind the other. -/
theorem not_full_and_empty (h : 3 ≤ r.capacity) (p c : ℕ) :
    ¬ (r.isFull p c = true ∧ r.isEmpty p c = true) := by
  rintro ⟨hfull, hempty⟩
  have hp : r.wrap p < r.capacity := wrap_lt (by omega) p
  have hc : r.wrap c < r.capacity := wrap_lt (by omega) c
  have hnext (cursor : ℕ) : r.next cursor = r.next (r.wrap cursor) := (Nat.mod_add_mod cursor r.capacity 1).symm
  have hfull : r.next (r.wrap p) = r.wrap c := hnext p ▸ beq_iff_eq.mp hfull
  have hempty : r.next (r.wrap c) = r.wrap p := hnext c ▸ beq_iff_eq.mp hempty
  rw [next_eq hp] at hfull
  rw [next_eq hc] at hempty
  split_ifs at hfull hempty <;> omega

end Ring

/-! ### Machine words -/

namespace Strict

section Cursors

/-- A remainder of 32-bit words, which division by zero does not have. -/
def rem32? (a b : UInt32) : Option UInt32 :=
  if b = 0 then none else some (a % b)

variable (capacity cursor other producer consumer : UInt32)

def usable? : Option UInt32 :=
  sub32? capacity 1

def next? : Option UInt32 := do
  rem32? (← add32? cursor 1) capacity

def isFull? : Option Bool := do
  return (← next? capacity cursor) == (← rem32? other capacity)

def isEmpty? : Option Bool := do
  return (← next? capacity other) == (← rem32? cursor capacity)

def pending? : Option UInt32 := do
  let stop ← add32? producer capacity
  rem32? (← sub32? stop (← rem32? consumer capacity)) capacity

def free? : Option UInt32 := do
  sub32? (← usable? capacity) (← pending? capacity producer consumer)

end Cursors

variable {r : Ring} {p c : ℕ}

/-- What is computed with two cursors in 32-bit words is what it is without bounds. -/
structure CursorsInBounds (r : Ring) (p c : ℕ) : Prop where
  usable : usable? (.ofNat r.capacity) = some (.ofNat r.usable)
  next_producer : next? (.ofNat r.capacity) (.ofNat p) = some (.ofNat (r.next p))
  next_consumer : next? (.ofNat r.capacity) (.ofNat c) = some (.ofNat (r.next c))
  isFull : isFull? (.ofNat r.capacity) (.ofNat p) (.ofNat c) = some (r.isFull p c)
  isEmpty : isEmpty? (.ofNat r.capacity) (.ofNat p) (.ofNat c) = some (r.isEmpty p c)
  pending : pending? (.ofNat r.capacity) (.ofNat p) (.ofNat c) = some (.ofNat (r.pending p c))
  free : free? (.ofNat r.capacity) (.ofNat p) (.ofNat c) = some (.ofNat (r.free p c))

theorem rem32?_eq {a b : ℕ} (ha : a < UInt32.size) (hpos : 0 < b) (hb : b < UInt32.size) :
    rem32? (.ofNat a) (.ofNat b) = some (.ofNat (a % b)) := by
  have hne : UInt32.ofNat b ≠ 0 := by
    rw [ne_eq, ← UInt32.toNat_inj, UInt32.toNat_ofNat_of_lt' hb]
    exact Nat.ne_of_gt hpos
  have hmod : UInt32.ofNat a % .ofNat b = .ofNat (a % b) := by
    apply UInt32.toNat_inj.mp
    rw [UInt32.toNat_mod, UInt32.toNat_ofNat_of_lt' ha, UInt32.toNat_ofNat_of_lt' hb,
      UInt32.toNat_ofNat_of_lt' (Nat.lt_of_le_of_lt (Nat.mod_le a b) ha)]
  rw [rem32?, if_neg hne, hmod]

section Bounded

variable (hcap : r.capacity ≤ 2 ^ 31) (hp : p < r.capacity) (hc : c < r.capacity)
include hcap hp

theorem usable?_eq : usable? (.ofNat r.capacity) = some (.ofNat r.usable) :=
  sub32?_one (by omega) (Nat.lt_of_le_of_lt hcap (by decide))

theorem rem32?_wrap : rem32? (.ofNat p) (.ofNat r.capacity) = some (.ofNat (r.wrap p)) := by
  have hsize : UInt32.size = 2 ^ 32 := rfl
  exact rem32?_eq (by omega) (by omega) (by omega)

theorem next?_eq : next? (.ofNat r.capacity) (.ofNat p) = some (.ofNat (r.next p)) := by
  have hsize : UInt32.size = 2 ^ 32 := rfl
  rw [next?, add32?_one (by omega)]
  exact rem32?_eq (by omega) (by omega) (by omega)

include hc

theorem isFull?_eq : isFull? (.ofNat r.capacity) (.ofNat p) (.ofNat c) = some (r.isFull p c) := by
  have hsmall {n : ℕ} (hn : n < r.capacity) : (UInt32.ofNat n).toNat = n :=
    UInt32.toNat_ofNat_of_lt' (Nat.lt_trans (Nat.lt_of_lt_of_le hn hcap) (by decide))
  have hpos : 0 < r.capacity := Nat.zero_lt_of_lt hp
  have hiff : UInt32.ofNat (r.next p) = .ofNat (r.wrap c) ↔ r.next p = r.wrap c := by
    rw [← UInt32.toNat_inj, hsmall (Ring.next_lt hpos p), hsmall (Ring.wrap_lt hpos c)]
  rw [isFull?, next?_eq hcap hp, rem32?_wrap hcap hc]
  exact congrArg some (Bool.eq_iff_iff.mpr (by rw [Ring.isFull, beq_iff_eq, beq_iff_eq, hiff]))

theorem pending?_eq : pending? (.ofNat r.capacity) (.ofNat p) (.ofNat c) = some (.ofNat (r.pending p c)) := by
  have hsize : UInt32.size = 2 ^ 32 := rfl
  have hlt : r.wrap c < r.capacity := Ring.wrap_lt (by omega) c
  rw [pending?, add32?_eq (by omega), rem32?_wrap hcap hc]
  simp only [Option.bind_eq_bind, Option.bind_some]
  rw [sub32?_eq (by omega) (by omega), Option.bind_some]
  exact rem32?_eq (by omega) (by omega) (by omega)

theorem free?_eq : free? (.ofNat r.capacity) (.ofNat p) (.ofNat c) = some (.ofNat (r.free p c)) := by
  have hle := Ring.pending_le_usable (Nat.zero_lt_of_lt hp) p c
  have hlt : r.usable < UInt32.size := Nat.lt_of_le_of_lt (Nat.le_trans (Nat.sub_le ..) hcap) (by decide)
  rw [free?, usable?_eq hcap hp, pending?_eq hcap hp hc]
  exact sub32?_eq hle hlt

theorem cursorsInBounds : CursorsInBounds r p c :=
  ⟨usable?_eq hcap hp, next?_eq hcap hp, next?_eq hcap hc, isFull?_eq hcap hp hc, isFull?_eq hcap hc hp,
    pending?_eq hcap hp hc, free?_eq hcap hp hc⟩

end Bounded

end Strict

namespace Ring

variable {r : Ring}

/-- **Cursors keep count.** Whatever turns a producer and a consumer take at a ring, from anywhere in it, their
cursors stay slots, and what is pending between them is what was published less what was taken. It is less than
the capacity by one slot at least, and with the words that are free makes up what is usable. The ring is full if
and only if none is free, and the cursors are equal if and only if none is pending. No 32-bit word overflows.
Unless there are at most two slots, the ring is never full and empty at once. -/
theorem turns_balanced {turns : List Turn} {start producer consumer : ℕ} (hcap : r.capacity ≤ 2 ^ 31)
    (hstart : start < r.capacity) (h : r.turns? (start, start) turns = some (producer, consumer)) :
    (producer < r.capacity ∧ consumer < r.capacity) ∧
    (turns.count .take ≤ turns.count .publish ∧
      r.pending producer consumer = turns.count .publish - turns.count .take) ∧
    r.pending producer consumer ≤ r.capacity - 1 ∧
    r.free producer consumer + r.pending producer consumer = r.usable ∧
    (r.isFull producer consumer = true ↔ r.free producer consumer = 0) ∧
    (producer = consumer ↔ r.pending producer consumer = 0) ∧
    Strict.CursorsInBounds r producer consumer ∧
    (3 ≤ r.capacity → ∀ p c, ¬ (r.isFull p c = true ∧ r.isEmpty p c = true)) := by
  have hpos : 0 < r.capacity := Nat.zero_lt_of_lt hstart
  obtain ⟨hp, hc, hcount⟩ := (balanced_start hstart).turns h
  rw [Nat.zero_add, Nat.zero_add] at hcount
  exact ⟨⟨hp, hc⟩, ⟨hcount ▸ Nat.le_add_left .., Nat.eq_sub_of_add_eq hcount⟩,
    pending_le_usable hpos producer consumer, free_add_pending hpos producer consumer, isFull_iff hp hc,
    (pending_eq_zero hp hc).symm, Strict.cursorsInBounds hcap hp hc, not_full_and_empty⟩

/-- Two words are published across the end of the largest ring, and one of them is taken. -/
theorem turns_balanced_largest :
    (⟨2 ^ 31⟩ : Ring).turns? (2 ^ 31 - 1, 2 ^ 31 - 1) [.publish, .publish, .take] = some (1, 0) ∧
    (⟨2 ^ 31⟩ : Ring).pending 1 0 = 1 ∧ Strict.CursorsInBounds ⟨2 ^ 31⟩ 1 0 := by
  have hturns : (⟨2 ^ 31⟩ : Ring).turns? (2 ^ 31 - 1, 2 ^ 31 - 1) [.publish, .publish, .take] = some (1, 0) := by
    decide
  obtain ⟨-, ⟨-, hpending⟩, -, -, -, -, hwords, -⟩ := turns_balanced (Nat.le_refl _) (by decide) hturns
  exact ⟨hturns, hpending, hwords⟩

end Ring

end RemoteUpdate
