import OpenPLC.OneWire

/-! The 1-wire bus (`onewire.c`): bytes, the search for the devices of a bus, and commands.
`ow_reset` and `ow_bit_io`, which drive the pin and wait, are operations of the bus. -/

namespace OpenPLC

open Lib

namespace OneWire

/-- What the library does with the pin of a bus: `ow_reset`, which tells whether it failed,
`ow_bit_io`, `ow_input_pin_state`, and `ow_parasite_enable`. -/
structure Bus (β : Type*) where
  owReset : β → Bool × β
  owBitIo : Bool → β → Bool × β
  owInputPinState : β → Bool
  owParasiteEnable : β → β

/-- `OW_SEARCH_FIRST`, which is `OW_PRESENCE_ERR` too -/
abbrev owSearchFirst : UInt8 := 0xff

/-- `OW_DATA_ERR` -/
abbrev owDataErr : UInt8 := 0xfe

/-- `OW_LAST_DEVICE` -/
abbrev owLastDevice : UInt8 := 0

/-- A byte shifted to the right, with a bit entered from the left. -/
def shiftIn (b : UInt8) (bit : Bool) : UInt8 := if bit then b >>> 1 ||| 0x80 else b >>> 1

/-- The first bit of a byte on the bus. -/
abbrev lowBit (b : UInt8) : Bool := b &&& 1 = 1

variable {β : Type*} (B : Bus β)

/-- The loop of `ow_byte_wr`, with the bits that are left. -/
def byteWrLoop : Nat → UInt8 → β → UInt8 × β
  | 0, b, s => (b, s)
  | n + 1, b, s =>
    let (j, s) := B.owBitIo (lowBit b) s
    byteWrLoop n (shiftIn b j) s

/-- `ow_byte_wr` -/
def owByteWr (b : UInt8) (s : β) : UInt8 × β := byteWrLoop B 8 b s

/-- `ow_byte_rd` -/
def owByteRd (s : β) : UInt8 × β := owByteWr B 0xff s

/-- Bytes written one after the other. -/
def owBytesWr (bs : List UInt8) (s : β) : β := bs.foldl (fun s b => (owByteWr B b s).2) s

/-- `n` bytes read one after the other. -/
def owBytesRd : Nat → β → List UInt8 × β
  | 0, s => ([], s)
  | n + 1, s =>
    let (b, s) := owByteRd B s
    let (bs, s) := owBytesRd n s
    (b :: bs, s)

/-- The bit that the search writes and the next value of `next_diff`, from the bits that it reads:
a bit of the ROM codes and its complement.  There is none after a data error. -/
def searchChoice (diff i id next : UInt8) (b compl : Bool) : Option (Bool × UInt8) :=
  if compl then if b then none else some (false, next)
  else if b then some (true, next)
  else if diff > i ∨ lowBit id ∧ diff ≠ i then some (true, i)
  else some (false, next)

/-- The bits of a byte in `ow_rom_search`: `next_diff`, or nothing after a data error, and the
byte. -/
def searchByte (diff : UInt8) : Nat → UInt8 → UInt8 → UInt8 → β → Option UInt8 × UInt8 × β
  | 0, _, next, id, s => (some next, id, s)
  | n + 1, i, next, id, s =>
    let (b, s) := B.owBitIo true s
    let (compl, s) := B.owBitIo true s
    match searchChoice diff i id next b compl with
    | none => (none, id, s)
    | some (b, next) =>
      let (_, s) := B.owBitIo b s
      searchByte diff n (i - 1) next (shiftIn id b) s

/-- The bytes of the ROM code in `ow_rom_search`. -/
def searchBytes (diff : UInt8) : List UInt8 → UInt8 → UInt8 → β → UInt8 × List UInt8 × β
  | [], _, next, s => (next, [], s)
  | byte :: id, i, next, s =>
    match searchByte B diff 8 i next byte s with
    | (none, byte, s) => (owDataErr, byte :: id, s)
    | (some next, byte, s) =>
      let (next, id, s) := searchBytes diff id (i - 8) next s
      (next, byte :: id, s)

/-- `ow_rom_search`, for an `id` of `OW_ROMCODE_SIZE` bytes -/
def owRomSearch (diff : UInt8) (id : List UInt8) (s : β) : UInt8 × List UInt8 × β :=
  let (err, s) := B.owReset s
  if err then (owSearchFirst, id, s)
  else searchBytes B diff id 64 owLastDevice (owByteWr B 0xf0 s).2

/-- `find_sensor`, whose loop returns in its first turn -/
def find_sensor (diff : UInt8) (id : List UInt8) (s : β) : UInt8 × List UInt8 × β :=
  owRomSearch B diff id s

/-- The loop of `search_sensors`: the number of sensors that it finds, a byte, and `sensorScan`.  If
`maxSensors` is at most 255, it ends within as many turns. -/
def searchLoop (maxSensors : Nat) : Nat → UInt8 → UInt8 → List UInt8 → Mem → β → UInt8 × Mem × β
  | 0, nSensors, _, _, scan, s => (nSensors, scan, s)
  | fuel + 1, nSensors, diff, id, scan, s =>
    if diff ≠ owLastDevice ∧ nSensors.toNat < maxSensors then
      let (diff, id, s) := find_sensor B diff id s
      if diff = owSearchFirst ∨ diff = owDataErr then (nSensors, scan, s)
      else searchLoop maxSensors fuel (nSensors + 1) diff id (scan.write (nSensors.toNat * 8) id) s
    else (nSensors, scan, s)

/-- `search_sensors`, with the contents of the local array `id` -/
def searchSensors (maxSensors : Nat) (id : List UInt8) (scan : Mem) (s : β) : UInt8 × Mem × β :=
  searchLoop B maxSensors maxSensors 0 owSearchFirst id scan s

/-- `ow_command`, where `id` may be `NULL` -/
def owCommand (command : UInt8) (id : Option (List UInt8)) (s : β) : β :=
  let (_, s) := B.owReset s
  let s := match id with
    | some id => owBytesWr B id (owByteWr B 0x55 s).2
    | none => (owByteWr B 0xcc s).2
  (owByteWr B command s).2

end OneWire

end OpenPLC
