import Mathlib.Data.Fin.VecNotation
import OpenPLC.OneWire.Command
import OpenPLC.OneWire.Crc8

/-! The thermometers (`ds18x20.c`): the temperature of a scratchpad, the commands, and the update of
the table of the sensors, which starts the measurements with one call and reads them with the
next. -/

namespace OpenPLC

open Lib

namespace OneWire

/-- `DS18S20_ID` -/
abbrev ds18s20Id : UInt8 := 0x10

/-- `DS18B20_ID` -/
abbrev ds18b20Id : UInt8 := 0x28

/-- What `DS18X20_meas_to_cel` stores. -/
structure Meas where
  subzero : Bool
  cel : UInt8
  celFracBits : UInt8
  maalt : UInt16
deriving DecidableEq

/-- The bits that are not defined at the resolution of a DS18B20: `DS18B20_12_BIT_UNDF` to
`DS18B20_9_BIT_UNDF` -/
def undefinedBits (conf : UInt8) : UInt16 :=
  if conf &&& 0x60 = 0x60 then 0
  else if conf &&& 0x40 = 0x40 then 1
  else if conf &&& 0x20 = 0x20 then 3
  else 7

/-- `DS18X20_meas_to_cel` -/
def measToCel (fc : UInt8) (sp : List UInt8) : Meas :=
  let meas := (sp.getD 0 0).toUInt16 ||| (sp.getD 1 0).toUInt16 <<< 8
  -- the extended measurement of a DS18S20
  let meas := if fc = ds18s20Id then
    (meas &&& 0xfffe) <<< 3 + (16 - (sp.getD 6 0).toUInt16 - 4) else meas
  let subzero := meas &&& 0x8000 ≠ 0
  let meas := if subzero then (meas ^^^ 0xffff) + 1 else meas
  let meas := if fc = ds18b20Id then meas &&& ~~~undefinedBits (sp.getD 4 0) else meas
  ⟨subzero, (meas >>> 4).toUInt8, (meas &&& 0x000f).toUInt8, meas⟩

/-- The temperature in tenths of a degree: `DS18X20_temp_to_decicel`, for fractions whose product
with `DS18X20_FRACCONV` is an `int` -/
def tempToDecicel (subzero : Bool) (cel celFracBits : UInt8) : UInt16 :=
  let h := UInt16.ofNat (celFracBits.toNat * 625 / 1000) + cel.toUInt16 * 10
  if !subzero && [1, 3, 4, 6, 9, 11, 12, 14].contains celFracBits then h + 1 else h

section Bus

variable {β : Type*} (B : Bus β)

/-- `DS18X20_start_meas`: whether it is `DS18X20_OK` -/
def startMeas (withPowerExtern : Bool) (id : Option (List UInt8)) (s : β) : Bool × β :=
  let (_, s) := B.owReset s
  if B.owInputPinState s then
    let s := owCommand B 0x44 id s
    (true, if withPowerExtern then s else B.owParasiteEnable s)
  else (false, s)

/-- `DS18X20_read_meas`: nothing is `DS18X20_ERROR_CRC` -/
def readMeas (id : List UInt8) (s : β) : Option Meas × β :=
  let (_, s) := B.owReset s
  let (sp, s) := owBytesRd B 9 (owCommand B 0xbe (some id) s)
  (if crc8 sp ≠ 0 then none else some (measToCel (id.getD 0 0) sp), s)

/-- `OW_selectPort`, where `ow_set_bus` resets the bus -/
def owSelectPort (s : β) : β := (B.owReset s).2

/-- The offsets `VALUE1`, `VALUE2` and `SIGN` in an entry of the table.  The offsets of the id are
those of a ROM code, which `updateOWSensors` takes with them from `sensorScan`. -/
structure ValueConf extends SensorConf where
  valueOffset : Fin 3 → Nat
  valueOffset_lt : ∀ i, valueOffset i < sensorsize
  valueOffset_inj : Function.Injective valueOffset
  valueOffset_ne : ∀ i j, valueOffset i ≠ offset j
  offset_eq : ∀ i, offset i = i

variable (K : ValueConf)

/-- The index of a value of the entry at a position. -/
def ValueConf.valueIndex (pos : Nat) (i : Fin 3) : Nat := pos * K.sensorsize + K.valueOffset i

/-- The values of a measurement: `cel`, `cel_frac_bits` and `sign` -/
def Meas.values (m : Meas) : Fin 3 → UInt8 :=
  ![m.cel, m.celFracBits, if m.subzero then 0x2d else 0x2b]

/-- The stores of `updateOWSensors` after a measurement. -/
def record (id : SensorId) (m : Meas) (s : Sensors) : Sensors :=
  let found := findSensor K.toSensorConf id s
  { found.after with
    sensorValues := storeAll found.after.sensorValues
      ((List.finRange 3).map fun i => (K.valueIndex found.pos.toNat i, m.values i)) }

/-- The loop of `updateOWSensors` over the sensors that were found, for the ones that are left. -/
def readSensors (scan : Mem) : List Nat → Sensors → β → Sensors × β
  | [], sensors, s => (sensors, s)
  | i :: is, sensors, s =>
    if scan (i * 8) = ds18s20Id ∨ scan (i * 8) = ds18b20Id then
      match readMeas B (scan.read (i * 8) 8) s with
      | (some m, s) =>
        readSensors scan is (record K (fun o => scan (i * 8 + K.offset o)) m sensors) s
      | (none, s) => readSensors scan is sensors s
    else readSensors scan is sensors s

/-- The state of the module: the buses of the ports, `DS18B20Conv`, `sensorScan`, and the table. -/
structure Board (β : Type*) where
  ports : List β
  ds18b20Conv : Bool
  sensorScan : Mem
  sensors : Sensors

/-- The loop of `updateOWSensors` over the ports that reads the measurements, with the contents of
the array `id` in `search_sensors`. -/
def readPorts (id : β → List UInt8) : List β → Mem → Sensors → List β × Mem × Sensors
  | [], scan, sensors => ([], scan, sensors)
  | s :: ports, scan, sensors =>
    let s := owSelectPort B s
    let (nSensors, scan, s) := searchSensors B K.maxsensors (id s) scan s
    let (sensors, s) := readSensors B K scan (List.range nSensors.toNat) sensors s
    let (ports, scan, sensors) := readPorts id ports scan sensors
    (s :: ports, scan, sensors)

/-- `updateOWSensors` -/
def updateOWSensors (id : β → List UInt8) (b : Board β) : Board β :=
  if !b.ds18b20Conv then
    { b with
      ds18b20Conv := true
      ports := b.ports.map fun s => (startMeas B false none (owSelectPort B s)).2 }
  else
    let (ports, sensorScan, sensors) := readPorts B K id b.ports b.sensorScan b.sensors
    { ports, ds18b20Conv := false, sensorScan, sensors }

/-- The loop of `findSystemID` over the devices that were found. -/
def systemId (scan : Mem) (nSensors : Nat) (id : List UInt8) : List UInt8 :=
  (List.range nSensors).foldl
    (fun id i => if scan (i * 8) = 0x01 then scan.read (i * 8) 8 else id) id

/-- `findSystemID`, on the bus of the first port -/
def findSystemID (stack id : List UInt8) (scan : Mem) (s : β) : List UInt8 × Mem × β :=
  let (nSensors, scan, s) := searchSensors B K.maxsensors stack scan (owSelectPort B s)
  (systemId scan nSensors.toNat id, scan, s)

end Bus

end OneWire

end OpenPLC
