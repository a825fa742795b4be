import OpenPLC.Lib.Crc
import OpenPLC.OneWire.Devices

/-! The checksum of ROM codes and scratchpads (`crc8.c`): the register of the polynomial
x^8 + x^5 + x^4 + 1, from the right to the left. -/

namespace OpenPLC

open Lib

namespace OneWire

/-- The body of the inner loop of `crc8`, but for the shift of `data` -/
def crcBit (crc data : UInt8) : UInt8 :=
  let feedbackBit := (crc ^^^ data) &&& 1
  let crc := if feedbackBit = 1 then crc ^^^ 0x18 else crc
  let crc := (crc >>> 1) &&& 0x7f
  if feedbackBit = 1 then crc ||| 0x80 else crc

/-- The inner loop of `crc8`, while `bitCounter` bits are left -/
def crcByte : Nat → UInt8 → UInt8 → UInt8
  | 0, crc, _ => crc
  | bitCounter + 1, crc, data => crcByte bitCounter (crcBit crc data) (data >>> 1)

/-- `crc8` -/
def crc8 (dataIn : List UInt8) : UInt8 := dataIn.foldl (crcByte 8) 0

/-- The taps of the register: `CRC8POLY` shifted to the right, and the bit that the feedback
sets. -/
abbrev taps : BitVec 8 := 0x8c

theorem crcBit_eq (crc data : UInt8) :
    (crcBit crc data).toBitVec = Crc.step taps crc.toBitVec (lowBit data) := by
  have hfeedback : (crc ^^^ data) &&& 1 = 1 ↔ (lowBit crc ^^ lowBit data) = true := by
    have hxor := lowBit_eq (crc ^^^ data)
    rw [UInt8.toBitVec_xor, BitVec.getLsbD_xor, ← lowBit_eq, ← lowBit_eq] at hxor
    rw [← hxor, decide_eq_true_iff]
  have hzero : ∀ r : BitVec 8, r >>> 1 &&& 0x7f = r >>> 1 := by decide +kernel
  have hone : ∀ r : BitVec 8, ((r ^^^ 0x18) >>> 1 &&& 0x7f) ||| 0x80 = r >>> 1 ^^^ taps := by
    decide +kernel
  simp only [crcBit, Crc.step, hfeedback, ← lowBit_eq]
  split
  · exact hone crc.toBitVec
  · exact hzero crc.toBitVec

theorem crcByte_eq {n : Nat} (hn : n ≤ 8) (crc data : UInt8) :
    (crcByte n crc data).toBitVec = Crc.run taps crc.toBitVec ((bits data).take n) := by
  induction n generalizing crc data with
  | zero => rfl
  | succ n ih =>
    rw [take_succ_bits data false hn, Crc.run_cons, ← crcBit_eq]
    exact ih (Nat.le_of_succ_le hn) ..

theorem foldl_crcByte_eq (crc : UInt8) (bs : List UInt8) :
    (bs.foldl (crcByte 8) crc).toBitVec = Crc.run taps crc.toBitVec (bs.flatMap bits) := by
  induction bs generalizing crc with
  | nil => rfl
  | cons b bs ih =>
    rw [List.foldl_cons, ih, crcByte_eq (Nat.le_refl 8), List.take_of_length_le (by simp),
      List.flatMap_cons, Crc.run_append]

/-- `crc8` runs the register over the bits of the message. -/
theorem crc8_eq_zero {bs : List UInt8} :
    crc8 bs = 0 ↔ Crc.run taps 0#8 (bs.flatMap bits) = 0#8 := by
  rw [← UInt8.toBitVec_inj]
  exact Eq.congr_left (foldl_crcByte_eq 0 bs)

/-- The bits that differ between a message and what is received. -/
def errors (sent received : List UInt8) : List Bool :=
  List.zipWith xor (sent.flatMap bits) (received.flatMap bits)

/-- Errors that the checksum detects: a burst of at most 8 bits, an odd number of errors, or two of
them in a message of at most 127 bits. -/
inductive Detectable : List Bool → Prop
  | burst (n m : Nat) {burst : List Bool} (short : burst.length ≤ 8) (error : true ∈ burst) :
      Detectable (List.replicate n false ++ burst ++ List.replicate m false)
  | odd {es : List Bool} (h : Odd (es.count true)) : Detectable es
  | two {es : List Bool} (h : es.count true = 2) (short : es.length ≤ 127) : Detectable es

theorem run_ne_zero_of_detectable {es : List Bool} (h : Detectable es) :
    Crc.run taps 0#8 es ≠ 0#8 := by
  cases h with
  | burst n m short error => exact Crc.run_burst (by decide) short error n m
  | odd h => exact Crc.run_odd (by decide) h
  | two h short =>
    have hperiod : ∀ k < 126, Crc.run taps taps (List.replicate (k + 1) false) ≠ taps := by
      decide +kernel
    exact Crc.run_count_two (by decide) h fun k hk => hperiod k (by omega)

/-- A message whose checksum is right is not taken for good after such errors. -/
theorem crc8_ne_zero_of_errors {sent received : List UInt8} (hlen : sent.length = received.length)
    (hsent : crc8 sent = 0) (herrors : Detectable (errors sent received)) : crc8 received ≠ 0 := by
  rw [Ne, crc8_eq_zero]
  refine Crc.run_ne_zero_of_errors ?_ (crc8_eq_zero.mp hsent) (run_ne_zero_of_detectable herrors)
  rw [length_flatMap_bits, length_flatMap_bits, hlen]

/-- A byte after a message makes the checksum right if and only if it is the checksum of the
message. -/
theorem crc8_append_eq_zero {data : List UInt8} {c : UInt8} :
    crc8 (data ++ [c]) = 0 ↔ c = crc8 data := by
  have hself : crc8 (data ++ [crc8 data]) = 0 := by
    have hregister : (crc8 data).toBitVec = Crc.run taps 0#8 (data.flatMap bits) :=
      foldl_crcByte_eq 0 data
    rw [crc8_eq_zero, List.flatMap_append, Crc.run_append, ← hregister, List.flatMap_singleton]
    exact (Crc.run_range 8).trans (BitVec.ushiftRight_eq_zero (Nat.le_refl 8))
  refine ⟨fun h => ?_, fun h => h ▸ hself⟩
  by_contra hne
  -- another byte differs in a burst
  let burst := List.zipWith xor (bits (crc8 data)) (bits c)
  have herrors : errors (data ++ [crc8 data]) (data ++ [c]) =
      List.replicate (data.flatMap bits).length false ++ burst ++ List.replicate 0 false := by
    rw [errors, List.flatMap_append, List.flatMap_append, List.zipWith_append rfl]
    have hsame (bs : List Bool) : List.zipWith xor bs bs = List.replicate bs.length false :=
      List.ext_getElem (by simp) fun i _ _ => by simp
    rw [hsame, List.flatMap_singleton, List.flatMap_singleton, List.replicate_zero, List.append_nil]
  obtain ⟨i, hi, hbit⟩ : ∃ i, ∃ _ : i < 8,
      (crc8 data).toBitVec.getLsbD i ≠ c.toBitVec.getLsbD i := by
    by_contra hall
    exact hne (eq_of_getLsbD fun i hi => by_contra fun h => hall ⟨i, hi, fun heq => h heq.symm⟩)
  have herror : true ∈ burst := by
    refine List.mem_iff_getElem.mpr ⟨i, by simpa [burst] using hi, ?_⟩
    simpa [burst, bits] using hbit
  exact crc8_ne_zero_of_errors (by simp) hself
    (herrors ▸ .burst _ 0 (by simp [burst]) herror) h

/-- One byte makes the checksum right, and with it a message is not taken for good after a short
burst of errors, an odd number of them, or two. -/
theorem crc8_protects (data : List UInt8) :
    (∀ c, crc8 (data ++ [c]) = 0 ↔ c = crc8 data) ∧
      ∀ received : List UInt8, received.length = data.length + 1 →
        Detectable (errors (data ++ [crc8 data]) received) → crc8 received ≠ 0 := by
  refine ⟨fun c => crc8_append_eq_zero, fun received hlen herrors => ?_⟩
  exact crc8_ne_zero_of_errors (by simp [hlen]) (crc8_append_eq_zero.mpr rfl) herrors

/-- The id in the comment of `findSystemID`, and with an error in the second byte. -/
theorem crc8_protects_systemId :
    crc8 [0x01, 0x51, 0x99, 0x36, 0x14, 0, 0, 0xf5] = 0 ∧
      crc8 [0x01, 0x50, 0x99, 0x36, 0x14, 0, 0, 0xf5] ≠ 0 := by
  have hcrc : crc8 [0x01, 0x51, 0x99, 0x36, 0x14, 0, 0] = 0xf5 := by decide +kernel
  have h := crc8_protects [0x01, 0x51, 0x99, 0x36, 0x14, 0, 0]
  rw [hcrc] at h
  exact ⟨(h.1 0xf5).mpr rfl, h.2 _ rfl (.odd (by decide))⟩

end OneWire

end OpenPLC
