import Mathlib.Data.Nat.Bitwise
import RemoteUpdate.Mailbox.Wire

/-!
# Headers and framed responses

A number stored in a bit field is read back, and fields that do not overlap do not disturb each other.
Hence a header keeps what it is made of. A header followed by as many words as it announces is a
`Response`, and words on the wire are the words of at most one sequence of responses.
-/

namespace RemoteUpdate

namespace BitField

/-- The field lies within a word and is not the whole of it. -/
def Fits (f : BitField) : Prop :=
  f.low.toNat < 32 ∧ f.width.toNat < 32 ∧ f.low.toNat + f.width.toNat ≤ 32

/-- The first field ends below the second, or the other way round. -/
def Apart (f g : BitField) : Prop :=
  f.low.toNat + f.width.toNat ≤ g.low.toNat ∨ g.low.toNat + g.width.toNat ≤ f.low.toNat

instance (f : BitField) : Decidable f.Fits := by unfold Fits; infer_instance
instance (f g : BitField) : Decidable (f.Apart g) := by unfold Apart; infer_instance

variable {f g : BitField} {word value : UInt32}

theorem toNat_mask (h : f.Fits) : f.mask.toNat = 2 ^ f.width.toNat - 1 := by
  obtain ⟨-, hw, -⟩ := h
  have one_shifted : ((1 : UInt32) <<< f.width).toNat = 2 ^ f.width.toNat := by
    rw [UInt32.toNat_shiftLeft, Nat.mod_eq_of_lt hw, Nat.shiftLeft_eq]
    simp only [UInt32.reduceToNat, one_mul]
    exact Nat.mod_eq_of_lt (Nat.pow_lt_pow_right (by omega) hw)
  have hle : (1 : UInt32) ≤ (1 : UInt32) <<< f.width := by
    rw [UInt32.le_iff_toNat_le, one_shifted]
    exact Nat.one_le_two_pow
  unfold mask
  rw [UInt32.toNat_sub_of_le _ _ hle, one_shifted]
  rfl

theorem bit_mask (h : f.Fits) (i : Nat) :
    f.mask.toBitVec.getLsbD i = decide (i < f.width.toNat) := by
  rw [BitVec.getLsbD, UInt32.toNat_toBitVec, toNat_mask h, Nat.testBit_two_pow_sub_one]

theorem toNat_and_mask (h : f.Fits) (n : UInt32) : (n &&& f.mask).toNat = n.toNat % 2 ^ f.width.toNat := by
  rw [UInt32.toNat_and, toNat_mask h, Nat.and_two_pow_sub_one_eq_mod]

theorem bit_get (h : f.Fits) (i : Nat) :
    (f.get word).toBitVec.getLsbD i =
      (word.toBitVec.getLsbD (f.low.toNat + i) && decide (i < f.width.toNat)) := by
  have hm := bit_mask h i
  obtain ⟨hl, -, -⟩ := h
  simp [get, hm, Nat.mod_eq_of_lt hl]

theorem bit_set (h : f.Fits) {i : Nat} (hi : i < 32) :
    (f.set word value).toBitVec.getLsbD i =
      if f.low.toNat ≤ i ∧ i < f.low.toNat + f.width.toNat then
        value.toBitVec.getLsbD (i - f.low.toNat)
      else word.toBitVec.getLsbD i := by
  have hm := bit_mask h
  obtain ⟨hl, hw, -⟩ := h
  simp only [set, UInt32.toBitVec_or, UInt32.toBitVec_and, UInt32.toBitVec_not,
    UInt32.toBitVec_shiftLeft, BitVec.getLsbD_or, BitVec.getLsbD_and, BitVec.getLsbD_not]
  simp only [BitVec.shiftLeft_eq', BitVec.getLsbD_shiftLeft, BitVec.getLsbD_and, hm, hi]
  have hlow : (f.low.toBitVec % 32).toNat = f.low.toNat := by simp [Nat.mod_eq_of_lt hl]
  rw [hlow]
  by_cases h1 : i < f.low.toNat
  · have h2 : ¬ (f.low.toNat ≤ i ∧ i < f.low.toNat + f.width.toNat) := by omega
    simp [h1, h2]
  · by_cases h3 : i < f.low.toNat + f.width.toNat
    · have h4 : i - f.low.toNat < f.width.toNat := by omega
      have h5 : f.low.toNat ≤ i := by omega
      simp [h1, h3, h4, h5]
    · have h4 : ¬ i - f.low.toNat < f.width.toNat := by omega
      simp [h1, h3, h4]

theorem get_set_self (h : f.Fits) : f.get (f.set word value) = value &&& f.mask := by
  apply UInt32.toBitVec_inj.mp
  apply BitVec.eq_of_getLsbD_eq
  intro i hi
  rw [bit_get h, UInt32.toBitVec_and, BitVec.getLsbD_and, bit_mask h]
  by_cases hw : i < f.width.toNat
  · have hlt : f.low.toNat + i < 32 := by have := h.2.2; omega
    rw [bit_set h hlt]
    simp [hw]
  · simp [hw]

theorem get_set_of_apart (hf : f.Fits) (hg : g.Fits) (h : f.Apart g) :
    g.get (f.set word value) = g.get word := by
  apply UInt32.toBitVec_inj.mp
  apply BitVec.eq_of_getLsbD_eq
  intro i hi
  rw [bit_get hg, bit_get hg]
  by_cases hw : i < g.width.toNat
  · have hlt : g.low.toNat + i < 32 := by have := hg.2.2; omega
    have hout : ¬ (f.low.toNat ≤ g.low.toNat + i ∧
        g.low.toNat + i < f.low.toNat + f.width.toNat) := by
      unfold Apart at h
      omega
    rw [bit_set hf hlt, if_neg hout]
  · simp [hw]

end BitField

/-! ### Headers -/

open BitField

theorem length_field {n : Nat} (h : n < 2048) :
    (UInt32.ofNat n &&& HeaderField.length.mask).toNat = n := by
  rw [toNat_and_mask (by decide), UInt32.toNat_ofNat']
  show n % 2 ^ 32 % 2 ^ 11 = n
  omega

namespace CommandHeader

variable {client transaction : UInt8} {length : Nat} {indirect : Bool} {opcode : UInt32}

theorem client_make : (make client transaction length indirect opcode).client =
    (client.toUInt32 &&& HeaderField.client.mask).toUInt8 := by
  simp (disch := decide) only [make, withField, CommandHeader.client, get_set_of_apart, get_set_self]

theorem transaction_make : (make client transaction length indirect opcode).transaction =
    (transaction.toUInt32 &&& HeaderField.transaction.mask).toUInt8 := by
  simp (disch := decide) only [make, withField, CommandHeader.transaction, get_set_of_apart,
    get_set_self]

theorem length_make (h : length < 2048) :
    (make client transaction length indirect opcode).length = length := by
  simp (disch := decide) only [make, withField, CommandHeader.length, get_set_of_apart,
    get_set_self]
  exact length_field h

theorem opcode_make (h : opcode ≤ maxOpcode) :
    (make client transaction length indirect opcode).opcode = opcode := by
  simp (disch := decide) only [make, withField, CommandHeader.opcode, get_set_self]
  have hlt : opcode.toNat < 2 ^ 11 := Nat.lt_succ_of_le (UInt32.le_iff_toNat_le.mp h)
  apply UInt32.toNat_inj.mp
  rw [toNat_and_mask (by decide)]
  exact Nat.mod_eq_of_lt hlt

end CommandHeader

namespace ResponseHeader

variable {client transaction : UInt8} {length : Nat} {code : UInt32}

theorem client_make : (make client transaction length code).client =
    (client.toUInt32 &&& HeaderField.client.mask).toUInt8 := by
  simp (disch := decide) only [make, withField, ResponseHeader.client, get_set_of_apart,
    get_set_self]

theorem transaction_make : (make client transaction length code).transaction =
    (transaction.toUInt32 &&& HeaderField.transaction.mask).toUInt8 := by
  simp (disch := decide) only [make, withField, ResponseHeader.transaction, get_set_of_apart,
    get_set_self]

theorem length_make (h : length < 2048) : (make client transaction length code).length = length := by
  simp (disch := decide) only [make, withField, ResponseHeader.length, get_set_of_apart,
    get_set_self]
  exact length_field h

theorem code_make : (make client transaction length code).code = code &&& HeaderField.code.mask := by
  simp (disch := decide) only [make, withField, ResponseHeader.code, get_set_self]

end ResponseHeader

/-! ### Frames -/

/-- A header followed by as many words as it announces. -/
structure Response where
  header : ResponseHeader
  data : List UInt32
  whole : data.length = header.length

namespace Response

def words (r : Response) : List UInt32 :=
  r.header.word :: r.data

/-- The host takes the response for the answer to a command of its own. -/
def Answers (r : Response) : Prop :=
  r.header.answers hostClient hostTransaction = true

instance : DecidablePred Answers := fun r => by unfold Answers; infer_instance

def wire (rs : List Response) : List UInt32 :=
  rs.flatMap words

variable {r : Response} {rs rs' : List Response}

@[simp] theorem wire_nil : wire [] = [] := rfl

@[simp] theorem wire_cons : wire (r :: rs) = r.header.word :: (r.data ++ wire rs) := rfl

@[simp] theorem wire_append : wire (rs ++ rs') = wire rs ++ wire rs' :=
  List.flatMap_append

theorem length_le_wire (rs : List Response) : rs.length ≤ (wire rs).length := by
  induction rs with
  | nil => exact Nat.le_refl _
  | cons r rs ih =>
    rw [wire_cons, List.length_cons, List.length_cons, List.length_append]
    omega

/-- Words are framed in one way only. -/
theorem wire_injective (h : wire rs = wire rs') : rs = rs' := by
  induction rs generalizing rs' with
  | nil =>
    cases rs' with
    | nil => rfl
    | cons => simp at h
  | cons r rs ih =>
    cases rs' with
    | nil => simp at h
    | cons r' rs' =>
      obtain ⟨⟨word⟩, data, whole⟩ := r
      obtain ⟨⟨word'⟩, data', whole'⟩ := r'
      simp only [wire_cons, List.cons.injEq] at h
      obtain ⟨rfl, h⟩ := h
      obtain ⟨rfl, rest⟩ := List.append_inj h (whole.trans whole'.symm)
      rw [ih rest]

/-- Words that come first belong to responses that come first. -/
theorem wire_prefix (h : wire rs <+: wire rs') : rs <+: rs' := by
  induction rs generalizing rs' with
  | nil => exact List.nil_prefix
  | cons r rs ih =>
    cases rs' with
    | nil =>
      rw [wire_cons, wire_nil] at h
      exact absurd (List.prefix_nil.mp h) (List.cons_ne_nil _ _)
    | cons r' rs' =>
      obtain ⟨⟨word⟩, data, whole⟩ := r
      obtain ⟨⟨word'⟩, data', whole'⟩ := r'
      obtain ⟨later, h⟩ := h
      simp only [wire_cons, List.cons_append, List.append_assoc, List.cons.injEq] at h
      obtain ⟨rfl, h⟩ := h
      obtain ⟨rfl, hrest⟩ := List.append_inj h (whole.trans whole'.symm)
      exact (List.prefix_cons_inj _).mpr (ih ⟨later, hrest⟩)

end Response

end RemoteUpdate
