import OpenPLC.OneWire.Onewire

/-! The devices of a 1-wire bus, as the library talks to them.  A device that sends a 0 in a time
slot pulls the line low, and so does the master; all of them see the level of the line.  After a
reset every device listens to a ROM command, which lets one device, or all of them, or those that
take part in a search go on. -/

namespace OpenPLC

open Lib

namespace OneWire

/-- The bits of a byte in the order in which they are sent. -/
def bits (b : UInt8) : List Bool := (List.range 8).map fun i => b.toBitVec.getLsbD i

/-- The byte of eight bits in the order in which they are sent. -/
def ofBits (bs : List Bool) : UInt8 := bs.foldl shiftIn 0

theorem lowBit_eq (b : UInt8) : lowBit b = b.toBitVec.getLsbD 0 := by
  have h : (b &&& 1).toBitVec = BitVec.setWidth 8 (BitVec.ofBool (b.toBitVec.getLsbD 0)) :=
    BitVec.and_one_eq_setWidth_ofBool_getLsbD
  have hiff : b &&& 1 = 1 ↔ b.toBitVec.getLsbD 0 = true := by
    rw [← UInt8.toBitVec_inj, h]
    cases b.toBitVec.getLsbD 0 <;> decide
  simp [lowBit, hiff]

theorem getLsbD_shiftIn (b : UInt8) (bit : Bool) {i : Nat} (hi : i < 8) :
    (shiftIn b bit).toBitVec.getLsbD i = if i = 7 then bit else b.toBitVec.getLsbD (i + 1) := by
  have hshift : (b >>> 1).toBitVec.getLsbD i = b.toBitVec.getLsbD (i + 1) := by
    rw [UInt8.toBitVec_shiftRight, Nat.add_comm]
    exact BitVec.getLsbD_ushiftRight ..
  have htop : ∀ j < 8, (0x80 : UInt8).toBitVec.getLsbD j = decide (j = 7) := by decide
  have hbeyond : b.toBitVec.getLsbD 8 = false := BitVec.getLsbD_of_ge _ _ (Nat.le_refl 8)
  cases bit
  · rw [shiftIn, if_neg (by simp), hshift]
    by_cases h7 : i = 7
    · rw [if_pos h7, h7, hbeyond]
    · rw [if_neg h7]
  · rw [shiftIn, if_pos rfl, UInt8.toBitVec_or, BitVec.getLsbD_or, hshift, htop i hi]
    by_cases h7 : i = 7 <;> simp [h7]

theorem getLsbD_foldl_shiftIn (b : UInt8) (bs : List Bool) {i : Nat} (hi : i < 8) :
    (bs.foldl shiftIn b).toBitVec.getLsbD i =
      if i + bs.length < 8 then b.toBitVec.getLsbD (i + bs.length)
      else bs.getD (i + bs.length - 8) false := by
  induction bs generalizing b with
  | nil => simp [hi]
  | cons c bs ih =>
    rw [List.foldl_cons, ih, List.length_cons]
    by_cases hlt : i + bs.length < 8
    · rw [if_pos hlt, getLsbD_shiftIn _ _ hlt]
      by_cases h7 : i + bs.length = 7
      · simp [h7, ← Nat.add_assoc]
      · rw [if_neg h7, if_pos (by omega), Nat.add_assoc]
    · rw [if_neg hlt, if_neg (by omega),
        show i + (bs.length + 1) - 8 = i + bs.length - 8 + 1 by omega]
      rfl

@[simp] theorem length_bits (b : UInt8) : (bits b).length = 8 := by simp [bits]

theorem length_flatMap_bits (bs : List UInt8) : (bs.flatMap bits).length = 8 * bs.length := by
  induction bs with
  | nil => rfl
  | cons b bs ih =>
    rw [List.flatMap_cons, List.length_append, length_bits, ih, List.length_cons]
    omega

theorem eq_of_getLsbD {b c : UInt8} (h : ∀ i < 8, b.toBitVec.getLsbD i = c.toBitVec.getLsbD i) :
    b = c := UInt8.eq_of_toBitVec_eq (BitVec.eq_of_getLsbD_eq fun i hi => h i hi)

/-- Eight bits are a byte, whatever they are shifted into. -/
theorem bits_foldl_shiftIn (b : UInt8) {bs : List Bool} (hbs : bs.length = 8) :
    bits (bs.foldl shiftIn b) = bs := by
  refine List.ext_getElem (by simp [hbs]) fun i hi hi' => ?_
  rw [length_bits] at hi
  simp only [bits, List.getElem_map, List.getElem_range]
  rw [getLsbD_foldl_shiftIn _ _ hi, if_neg (by omega), hbs, Nat.add_sub_cancel,
    List.getD_eq_getElem?_getD, List.getElem?_eq_getElem hi', Option.getD_some]

theorem bits_injective : Function.Injective bits := by
  intro b c h
  refine eq_of_getLsbD fun i hi => ?_
  have := congrArg (·[i]?) h
  simpa [bits, hi] using this

theorem foldl_shiftIn_bits (b c : UInt8) : (bits b).foldl shiftIn c = b :=
  bits_injective (bits_foldl_shiftIn c (length_bits b))

theorem take_succ_bits (b : UInt8) (bit : Bool) {n : Nat} (hn : n < 8) :
    (bits b).take (n + 1) = lowBit b :: (bits (shiftIn b bit)).take n := by
  refine List.ext_getElem (by simp; omega) fun i hi _ => ?_
  simp only [List.length_take, length_bits] at hi
  cases i with
  | zero => simp [bits, lowBit_eq]
  | succ i =>
    simp only [bits, List.getElem_take, List.getElem_map, List.getElem_range,
      List.getElem_cons_succ]
    rw [getLsbD_shiftIn _ _ (by omega), if_neg (by omega)]

/-- What a device does in the next time slot, with the bits that it heard or is yet to send. -/
inductive Phase
  | romCommand (heard : List Bool)
  | searchBit (rom : List Bool)
  | searchCompl (rom : List Bool)
  | searchChoice (rom : List Bool)
  | matchRom (rom : List Bool)
  | function (heard : List Bool)
  | sending (data : List Bool)
  | idle
deriving DecidableEq

/-- A device: its ROM code, its scratchpad, and what a conversion stores there. -/
structure Device where
  rom : List UInt8
  scratchpad : List UInt8
  measured : List UInt8
  phase : Phase
  length_rom : rom.length = 8
  length_scratchpad : scratchpad.length = 9
  length_measured : measured.length = 9
deriving DecidableEq

namespace Device

/-- The bits of the ROM code. -/
def romBits (d : Device) : List Bool := d.rom.flatMap bits

theorem length_romBits (d : Device) : d.romBits.length = 64 := by
  rw [romBits, length_flatMap_bits, d.length_rom]

/-- The device in another phase. -/
def into (d : Device) (phase : Phase) : Device := { d with phase }

@[simp] theorem into_phase (d : Device) (p : Phase) : (d.into p).phase = p := rfl

@[simp] theorem into_rom (d : Device) (p : Phase) : (d.into p).rom = d.rom := rfl

@[simp] theorem into_romBits (d : Device) (p : Phase) : (d.into p).romBits = d.romBits := rfl

@[simp] theorem into_into (d : Device) (p q : Phase) : (d.into p).into q = d.into q := rfl

@[simp] theorem into_self (d : Device) : d.into d.phase = d := rfl

/-- The device after a conversion. -/
def convert (d : Device) : Device :=
  { d with scratchpad := d.measured, length_scratchpad := d.length_measured }

def reset (d : Device) : Device := d.into (.romCommand [])

@[simp] theorem reset_rom (d : Device) : d.reset.rom = d.rom := rfl

@[simp] theorem reset_scratchpad (d : Device) : d.reset.scratchpad = d.scratchpad := rfl

/-- The level at which a device leaves the line in the next time slot. -/
def line (d : Device) : Bool :=
  match d.phase with
  | .searchBit (b :: _) | .sending (b :: _) => b
  | .searchCompl (b :: _) => !b
  | _ => true

/-- The phase after a ROM command. -/
def romCommand (d : Device) (heard : List Bool) : Phase :=
  if heard.length < 8 then .romCommand heard
  else if ofBits heard = 0xf0 then .searchBit d.romBits
  else if ofBits heard = 0x55 then .matchRom d.romBits
  else if ofBits heard = 0xcc then .function []
  else .idle

/-- The device after a function command: `DS18X20_CONVERT_T` and `DS18X20_READ` -/
def function (d : Device) (heard : List Bool) : Device :=
  if heard.length < 8 then d.into (.function heard)
  else if ofBits heard = 0x44 then d.convert.into .idle
  else if ofBits heard = 0xbe then d.into (.sending (d.scratchpad.flatMap bits))
  else d.into .idle

/-- The device after a time slot with this level of the line. -/
def step (d : Device) (level : Bool) : Device :=
  match d.phase with
  | .romCommand heard => d.into (d.romCommand (heard ++ [level]))
  | .searchBit rom => d.into (.searchCompl rom)
  | .searchCompl rom => d.into (.searchChoice rom)
  | .searchChoice (b :: rom) => d.into (if level = b then .searchBit rom else .idle)
  | .matchRom [b] => d.into (if level = b then .function [] else .idle)
  | .matchRom (b :: rom) => d.into (if level = b then .matchRom rom else .idle)
  | .function heard => d.function (heard ++ [level])
  | .sending (_ :: data) => d.into (.sending data)
  | _ => d.into .idle

end Device

/-- The bus of some devices. -/
def wire : Bus (List Device) where
  owReset ds := (ds.isEmpty, ds.map Device.reset)
  owBitIo b ds :=
    let level := b && ds.all Device.line
    (level, ds.map (Device.step · level))
  owInputPinState _ := true
  owParasiteEnable ds := ds

end OneWire

end OpenPLC
