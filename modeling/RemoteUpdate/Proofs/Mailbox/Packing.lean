import RemoteUpdate.Mailbox.Report
import RemoteUpdate.Proofs.Mailbox.Headers
import RemoteUpdate.Proofs.Table.Codec

/-!
# Packed words

Storing a number in a field of a word keeps as much of the number as fits and every bit outside of the field
(`BitField.Stored`). The two kinds of header have the client, the transaction and the length at the same bits, so
a response made for a command is taken for the answer to that command and to no other. A report is put together
from its words as it was taken apart.
-/

namespace RemoteUpdate

/-! ### Fields -/

namespace BitField

variable {f : BitField} {word value : UInt32}

/-- The bit belongs to the field. -/
def Covers (f : BitField) (i : ℕ) : Prop :=
  f.low.toNat ≤ i ∧ i < f.low.toNat + f.width.toNat

/-- A word with a number stored in one of its fields. -/
structure Stored (f : BitField) (word value stored : UInt32) : Prop where
  /-- The field holds as much of the number as fits. -/
  value : (f.get stored).toNat = value.toNat % 2 ^ f.width.toNat
  /-- The other bits are as they were. -/
  others : ∀ i, ¬ f.Covers i → stored.toNat.testBit i = word.toNat.testBit i

/-- The number in the field is that of so many bits of the word, from bit `low` upwards. -/
def ReadsAt (f : BitField) (low width : ℕ) : Prop :=
  ∀ word : UInt32, (f.get word).toNat = word.toNat / 2 ^ low % 2 ^ width

theorem readsAt (h : f.Fits) : f.ReadsAt f.low.toNat f.width.toNat := by
  intro word
  rw [get, toNat_and_mask h, UInt32.toNat_shiftRight, Nat.mod_eq_of_lt h.1, Nat.shiftRight_eq_div_pow]

theorem stored_set (h : f.Fits) (word value : UInt32) : f.Stored word value (f.set word value) where
  value := by rw [get_set_self h, toNat_and_mask h]
  others i hi := by
    by_cases hword : i < 32
    · exact (bit_set h hword).trans (if_neg hi)
    · have hlarge (n : UInt32) : n.toNat.testBit i = false :=
        BitVec.getLsbD_of_ge n.toBitVec i (Nat.not_lt.mp hword)
      rw [hlarge, hlarge]

end BitField

/-! ### Headers -/

open BitField

def CommandHeader.fields : List BitField :=
  [HeaderField.client, HeaderField.transaction, HeaderField.length, HeaderField.indirect, HeaderField.code]

def ResponseHeader.fields : List BitField :=
  [HeaderField.client, HeaderField.transaction, HeaderField.length, HeaderField.code]

/-- What both kinds of header carry, as numbers read off the word. -/
structure Placed (word : UInt32) (client transaction : UInt8) (length : ℕ) (code : UInt32) : Prop where
  client : client.toNat = word.toNat / 2 ^ 28 % 2 ^ 4
  transaction : transaction.toNat = word.toNat / 2 ^ 24 % 2 ^ 4
  length : length = word.toNat / 2 ^ 12 % 2 ^ 11
  code : code.toNat = word.toNat % 2 ^ 11

theorem placed (word : UInt32) : Placed word (HeaderField.client.get word).toUInt8
    (HeaderField.transaction.get word).toUInt8 (HeaderField.length.get word).toNat
    (HeaderField.code.get word) where
  client := by
    rw [UInt32.toNat_toUInt8, readsAt (by decide)]
    show word.toNat / 2 ^ 28 % 2 ^ 4 % 2 ^ 8 = word.toNat / 2 ^ 28 % 2 ^ 4
    omega
  transaction := by
    rw [UInt32.toNat_toUInt8, readsAt (by decide)]
    show word.toNat / 2 ^ 24 % 2 ^ 4 % 2 ^ 8 = word.toNat / 2 ^ 24 % 2 ^ 4
    omega
  length := readsAt (by decide) word
  code := by
    rw [readsAt (by decide)]
    show word.toNat / 2 ^ 0 % 2 ^ 11 = word.toNat % 2 ^ 11
    rw [Nat.pow_zero, Nat.div_one]

theorem CommandHeader.isIndirect_eq (h : CommandHeader) : h.isIndirect = h.word.toNat.testBit 11 := by
  have hget : (HeaderField.indirect.get h.word).toNat = h.word.toNat / 2 ^ 11 % 2 := readsAt (by decide) h.word
  have hzero : HeaderField.indirect.get h.word = 0 ↔ (HeaderField.indirect.get h.word).toNat = 0 :=
    UInt32.toNat_inj.symm
  rw [isIndirect, Bool.eq_iff_iff, bne_iff_ne, ne_eq, hzero, hget, Nat.testBit_eq_decide_div_mod_eq,
    decide_eq_true_eq]
  omega

theorem nibble_field {n : UInt8} (h : n < 16) : (n.toUInt32 &&& HeaderField.client.mask).toUInt8 = n := by
  apply UInt8.toNat_inj.mp
  have hlt : n.toNat < 16 := UInt8.lt_iff_toNat_lt.mp h
  rw [UInt32.toNat_toUInt8, toNat_and_mask (by decide), UInt8.toNat_toUInt32]
  show n.toNat % 2 ^ 4 % 2 ^ 8 = n.toNat
  omega

/-- The header has these fields. -/
structure CommandHeader.Carries (h : CommandHeader) (client transaction : UInt8) (length : ℕ) (indirect : Bool)
    (opcode : UInt32) : Prop where
  client : h.client = client
  transaction : h.transaction = transaction
  length : h.length = length
  indirect : h.isIndirect = indirect
  opcode : h.opcode = opcode

theorem CommandHeader.carries_make {client transaction : UInt8} {length : ℕ} {opcode : UInt32} (indirect : Bool)
    (hclient : client < 16) (htransaction : transaction < 16) (hlength : length < 2048)
    (hopcode : opcode ≤ maxOpcode) :
    (make client transaction length indirect opcode).Carries client transaction length indirect opcode where
  client := client_make.trans (nibble_field hclient)
  transaction := transaction_make.trans (nibble_field htransaction)
  length := length_make hlength
  indirect := by
    simp (disch := decide) only [make, withField, isIndirect, get_set_of_apart, get_set_self]
    cases indirect <;> rfl
  opcode := opcode_make hopcode

/-- The header has these fields. -/
structure ResponseHeader.Carries (h : ResponseHeader) (client transaction : UInt8) (length : ℕ)
    (code : UInt32) : Prop where
  client : h.client = client
  transaction : h.transaction = transaction
  length : h.length = length
  code : h.code = code

theorem ResponseHeader.carries_make {client transaction : UInt8} {length : ℕ} {code : UInt32}
    (hclient : client < 16) (htransaction : transaction < 16) (hlength : length < 2048) (hcode : code < 2048) :
    (make client transaction length code).Carries client transaction length code where
  client := client_make.trans (nibble_field hclient)
  transaction := transaction_make.trans (nibble_field htransaction)
  length := length_make hlength
  code := by
    have hlt : code.toNat < 2 ^ 11 := UInt32.lt_iff_toNat_lt.mp hcode
    rw [code_make, ← UInt32.toNat_inj, toNat_and_mask (by decide)]
    exact Nat.mod_eq_of_lt hlt

theorem CommandHeader.client_lt (h : CommandHeader) : h.client < 16 := by
  rw [UInt8.lt_iff_toNat_lt, client, (placed h.word).client]
  exact Nat.mod_lt _ (by decide)

theorem CommandHeader.transaction_lt (h : CommandHeader) : h.transaction < 16 := by
  rw [UInt8.lt_iff_toNat_lt, transaction, (placed h.word).transaction]
  exact Nat.mod_lt _ (by decide)

/-- A response made for a command answers the command's client and transaction and no other. -/
theorem ResponseHeader.answers_make_iff (h : CommandHeader) (length : ℕ) (code : UInt32)
    (client transaction : UInt8) :
    (make h.client h.transaction length code).answers client transaction = true ↔
      client = h.client ∧ transaction = h.transaction := by
  have hclient : (make h.client h.transaction length code).client = h.client :=
    client_make.trans (nibble_field h.client_lt)
  have htransaction : (make h.client h.transaction length code).transaction = h.transaction :=
    transaction_make.trans (nibble_field h.transaction_lt)
  rw [answers, hclient, htransaction, Bool.and_eq_true, beq_iff_eq, beq_iff_eq, eq_comm,
    eq_comm (b := transaction)]

/-! ### Reports -/

def versionFields : List BitField :=
  [VersionField.decision, VersionField.application, VersionField.errorSource, VersionField.currentIndex,
    DecisionField.update, DecisionField.minor, DecisionField.major]

theorem toNat_joinWords (low high : UInt32) : (joinWords low high).toNat = low.toNat + 2 ^ 32 * high.toNat :=
  Table.toNat_halves low high

theorem lowWord_joinWords (low high : UInt32) : lowWord (joinWords low high) = low := by
  have := low.toNat_lt
  apply UInt32.toNat_inj.mp
  rw [lowWord, UInt64.toNat_toUInt32, toNat_joinWords]
  omega

theorem highWord_joinWords (low high : UInt32) : highWord (joinWords low high) = high := by
  have := low.toNat_lt
  have := high.toNat_lt
  apply UInt32.toNat_inj.mp
  rw [highWord, UInt64.toNat_toUInt32, UInt64.toNat_shiftRight, toNat_joinWords]
  show ((low.toNat + 2 ^ 32 * high.toNat) >>> 32) % 2 ^ 32 = high.toNat
  rw [Nat.shiftRight_eq_div_pow]
  omega

theorem joinWords_halves (n : UInt64) : joinWords (lowWord n) (highWord n) = n :=
  Table.ofWords64 n

namespace UpdateStatus

theorem ofWords_toWords (s : UpdateStatus) : ofWords s.toWords = s := by
  show { s with
    currentImage := joinWords (lowWord s.currentImage) (highWord s.currentImage)
    failImage := joinWords (lowWord s.failImage) (highWord s.failImage) } = s
  rw [joinWords_halves, joinWords_halves]

theorem toWords_ofWords (w : Vector UInt32 updateStatusWords) : (ofWords w).toWords = w := by
  refine Vector.ext fun i hi => ?_
  have hi : i < 9 := hi
  match i, hi with
  | 0, _ | 2, _ => exact lowWord_joinWords _ _
  | 1, _ | 3, _ => exact highWord_joinWords _ _
  | 4, _ | 5, _ | 6, _ | 7, _ | 8, _ => rfl

end UpdateStatus

namespace DeviceInfo

theorem toNat_pack (low high : UInt16) : (pack low high).toNat = low.toNat + 2 ^ 16 * high.toNat := by
  rw [pack, UInt32.toNat_or, UInt32.toNat_shiftLeft, UInt16.toNat_toUInt32, UInt16.toNat_toUInt32]
  exact Table.or_shiftLeft_mod low.toNat_lt high.toNat_lt

theorem low_pack (low high : UInt16) : (pack low high).toUInt16 = low := by
  have := low.toNat_lt
  apply UInt16.toNat_inj.mp
  rw [UInt32.toNat_toUInt16, toNat_pack]
  omega

theorem high_pack (low high : UInt16) : (pack low high >>> 16).toUInt16 = high := by
  have := low.toNat_lt
  have := high.toNat_lt
  apply UInt16.toNat_inj.mp
  rw [UInt32.toNat_toUInt16, UInt32.toNat_shiftRight, toNat_pack]
  show ((low.toNat + 2 ^ 16 * high.toNat) >>> 16) % 2 ^ 16 = high.toNat
  rw [Nat.shiftRight_eq_div_pow]
  omega

theorem pack_halves (w : UInt32) : pack w.toUInt16 (w >>> 16).toUInt16 = w := by
  have := w.toNat_lt
  apply UInt32.toNat_inj.mp
  rw [toNat_pack, UInt32.toNat_toUInt16, UInt32.toNat_toUInt16, UInt32.toNat_shiftRight]
  show w.toNat % 2 ^ 16 + 2 ^ 16 * ((w.toNat >>> 16) % 2 ^ 16) = w.toNat
  rw [Nat.shiftRight_eq_div_pow]
  omega

theorem ofWords_toWords (d : DeviceInfo) : ofWords d.toWords = d := by
  have hversions : (ofWords d.toWords).versions = d.versions := by
    refine Vector.ext fun i hi => ?_
    have hi : i < 4 := hi
    match i, hi with
    | 0, _ | 1, _ | 2, _ | 3, _ => rfl
  have hstatus : (ofWords d.toWords).status = d.status := by
    refine Vector.ext fun i hi => ?_
    have hi : i < 4 := hi
    match i, hi with
    | 0, _ | 2, _ => exact low_pack _ _
    | 1, _ | 3, _ => exact high_pack _ _
  show { d with versions := (ofWords d.toWords).versions, status := (ofWords d.toWords).status } = d
  rw [hversions, hstatus]

theorem toWords_ofWords (w : Vector UInt32 deviceInfoWords) : (ofWords w).toWords = w := by
  refine Vector.ext fun i hi => ?_
  have hi : i < 7 := hi
  match i, hi with
  | 0, _ | 1, _ | 2, _ | 3, _ | 6, _ => rfl
  | 4, _ | 5, _ => exact pack_halves _

end DeviceInfo

theorem fits_of_mem {f : BitField}
    (h : f ∈ CommandHeader.fields ++ ResponseHeader.fields ++ versionFields) : f.Fits := by
  revert f
  decide

/-- **Packed words keep what is stored in them.** A number stored in a field of a header or of a version word is
read back, cut to the width of the field, and no other bit of the word changes; the fields are where the format
puts them, and in the same place in both kinds of header. A header made of fields that fit has these fields, and
a response made for a command answers its client and transaction and no other. Reports and their words
determine each other. -/
theorem packed_words :
    (∀ f ∈ CommandHeader.fields, ∀ (h : CommandHeader) (value : UInt32),
      f.Stored h.word value (h.withField f value).word) ∧
    (∀ f ∈ ResponseHeader.fields, ∀ (h : ResponseHeader) (value : UInt32),
      f.Stored h.word value (h.withField f value).word) ∧
    (∀ f ∈ versionFields, ∀ word value : UInt32, f.Stored word value (f.set word value)) ∧
    (VersionField.decision.ReadsAt 0 8 ∧ VersionField.application.ReadsAt 8 8 ∧
      VersionField.errorSource.ReadsAt 16 12 ∧ VersionField.currentIndex.ReadsAt 28 4 ∧
      DecisionField.update.ReadsAt 8 8 ∧ DecisionField.minor.ReadsAt 16 8 ∧ DecisionField.major.ReadsAt 24 8) ∧
    (∀ c : CommandHeader, Placed c.word c.client c.transaction c.length c.opcode ∧
      c.isIndirect = c.word.toNat.testBit 11) ∧
    (∀ r : ResponseHeader, Placed r.word r.client r.transaction r.length r.code) ∧
    (∀ (client transaction : UInt8) (length : ℕ) (indirect : Bool) (opcode : UInt32),
      client < 16 → transaction < 16 → length < 2048 → opcode ≤ maxOpcode →
      (CommandHeader.make client transaction length indirect opcode).Carries client transaction length indirect
        opcode) ∧
    (∀ (client transaction : UInt8) (length : ℕ) (code : UInt32),
      client < 16 → transaction < 16 → length < 2048 → code < 2048 →
      (ResponseHeader.make client transaction length code).Carries client transaction length code) ∧
    (∀ (c : CommandHeader) (length : ℕ) (code : UInt32) (client transaction : UInt8),
      (ResponseHeader.make c.client c.transaction length code).answers client transaction = true ↔
        client = c.client ∧ transaction = c.transaction) ∧
    (Function.LeftInverse UpdateStatus.ofWords UpdateStatus.toWords ∧
      Function.RightInverse UpdateStatus.ofWords UpdateStatus.toWords) ∧
    Function.LeftInverse DeviceInfo.ofWords DeviceInfo.toWords ∧
      Function.RightInverse DeviceInfo.ofWords DeviceInfo.toWords := by
  -- the setters only need their field to fit into a word, which all fields are checked for together
  refine ⟨fun f hf h => ?_, fun f hf h => ?_, fun f hf => ?_, ⟨?_, ?_, ?_, ?_, ?_, ?_, ?_⟩,
    fun c => ⟨placed c.word, c.isIndirect_eq⟩, fun r => placed r.word,
    fun _ _ _ indirect _ => CommandHeader.carries_make indirect, fun _ _ _ _ => ResponseHeader.carries_make,
    ResponseHeader.answers_make_iff, ⟨UpdateStatus.ofWords_toWords, UpdateStatus.toWords_ofWords⟩,
    DeviceInfo.ofWords_toWords, DeviceInfo.toWords_ofWords⟩
  · exact stored_set (fits_of_mem (List.mem_append_left _ (List.mem_append_left _ hf))) h.word
  · exact stored_set (fits_of_mem (List.mem_append_left _ (List.mem_append_right _ hf))) h.word
  · exact stored_set (fits_of_mem (List.mem_append_right _ hf))
  all_goals exact readsAt (by decide)

/-- The header under which the host asks for an update. -/
theorem packed_words_update : (CommandHeader.make hostClient hostTransaction 2 false 92).word = 0xb100205c ∧
    (CommandHeader.make hostClient hostTransaction 2 false 92).Carries hostClient hostTransaction 2 false 92 := by
  obtain ⟨-, -, -, -, -, -, carries, -⟩ := packed_words
  exact ⟨by decide, carries hostClient hostTransaction 2 false 92 (by decide) (by decide) (by decide) (by decide)⟩

end RemoteUpdate
