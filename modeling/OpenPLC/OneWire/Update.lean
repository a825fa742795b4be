import OpenPLC.OneWire.Ds18x20
import OpenPLC.OneWire.Search

/-! The update of the table of the sensors.  The table is a map from ids to the values of the last
measurement; a pair of calls of `updateOWSensors` starts the measurements of all thermometers, finds
the devices of each port, and enters what the thermometers measured, so that after any number of
updates the table holds for each of them what it measured last. -/

namespace OpenPLC

open Lib

namespace OneWire

/-! ### The table is a map -/

variable {K : ValueConf} {s : Sensors} {all ids : List SensorId} {id : SensorId} {m : Meas}

/-- The values that the table holds for an id. -/
def Sensors.values (K : ValueConf) (s : Sensors) (id : SensorId) : Option (Fin 3 → UInt8) :=
  ((List.range K.maxsensors).find? fun pos => s.Holds K.toSensorConf pos id).map
    fun pos i => s.sensorValues (K.valueIndex pos i)

theorem entry_inj {pos pos' o o' : Nat} (ho : o < K.sensorsize) (ho' : o' < K.sensorsize)
    (h : pos * K.sensorsize + o = pos' * K.sensorsize + o') : pos = pos' ∧ o = o' := by
  have hdiv (p q : Nat) (hq : q < K.sensorsize) : (p * K.sensorsize + q) / K.sensorsize = p := by
    rw [Nat.add_comm, Nat.add_mul_div_right _ _ (by omega), Nat.div_eq_of_lt hq, Nat.zero_add]
  have hpos : pos = pos' := by rw [← hdiv pos o ho, h, hdiv pos' o' ho']
  subst hpos
  exact ⟨rfl, Nat.add_left_cancel h⟩

theorem valueIndex_ne_index (pos pos' : Nat) (i : Fin 3) (j : Fin 8) :
    K.valueIndex pos i ≠ K.toSensorConf.index pos' j := fun h =>
  K.valueOffset_ne i j (entry_inj (K.valueOffset_lt i) (K.offset_lt j) h).2

theorem valueIndex_inj {pos pos' : Nat} {i j : Fin 3}
    (h : K.valueIndex pos i = K.valueIndex pos' j) :
    pos = pos' ∧ i = j := by
  obtain ⟨hpos, hoffset⟩ := entry_inj (K.valueOffset_lt i) (K.valueOffset_lt j) h
  exact ⟨hpos, K.valueOffset_inj hoffset⟩

/-- The stores of `record`. -/
def valueStores (K : ValueConf) (pos : Nat) (v : Fin 3 → UInt8) : List (Nat × UInt8) :=
  (List.finRange 3).map fun i => (K.valueIndex pos i, v i)

theorem storeAll_valueStores (mem : Mem) (pos pos' : Nat) (v : Fin 3 → UInt8) (i : Fin 3) :
    storeAll mem (valueStores K pos v) (K.valueIndex pos' i) =
      if pos' = pos then v i else mem (K.valueIndex pos' i) := by
  split
  · next h =>
    subst h
    refine storeAll_apply_of_mem (e := (K.valueIndex pos' i, v i))
      (List.mem_map.mpr ⟨i, List.mem_finRange i, rfl⟩) fun e' he' heq => ?_
    obtain ⟨j, -, rfl⟩ := List.mem_map.mp he'
    rw [(valueIndex_inj heq).2]
  · next h =>
    refine storeAll_apply_of_ne fun e he heq => ?_
    obtain ⟨j, -, rfl⟩ := List.mem_map.mp he
    exact h (valueIndex_inj heq).1.symm

theorem storeAll_index (mem : Mem) (pos pos' : Nat) (v : Fin 3 → UInt8) (j : Fin 8) :
    storeAll mem (valueStores K pos v) (K.toSensorConf.index pos' j) =
      mem (K.toSensorConf.index pos' j) := by
  refine storeAll_apply_of_ne fun e he heq => ?_
  obtain ⟨i, -, rfl⟩ := List.mem_map.mp he
  exact valueIndex_ne_index pos pos' i j heq

/-- `findSensor` changes no values. -/
theorem findSensor_valueIndex (s : Sensors) (id : SensorId) (pos : Nat) (i : Fin 3) :
    (findSensor K.toSensorConf id s).after.sensorValues (K.valueIndex pos i) =
      s.sensorValues (K.valueIndex pos i) := by
  unfold findSensor
  split
  · rfl
  · refine storeAll_apply_of_ne fun e he heq => ?_
    obtain ⟨j, -, rfl⟩ := List.mem_map.mp he
    exact valueIndex_ne_index pos _ i j heq.symm

theorem Entered.values_eq (h : Entered K.toSensorConf all ids s) (hid : id ∈ all) :
    s.values K id =
      if id ∈ ids then some fun i => s.sensorValues (K.valueIndex (ids.idxOf id) i) else none := by
  rw [Sensors.values, h.search hid]
  split <;> rfl

/-- `record` enters the values under their id, and no others. -/
theorem Entered.afterRecord (h : Entered K.toSensorConf all ids s) (hid : id ∈ all)
    (hroom : (enter ids id).length ≤ K.maxsensors) (m : Meas) :
    Entered K.toSensorConf all (enter ids id) (record K id m s) ∧ ∀ id' ∈ all,
      (record K id m s).values K id' = if id' = id then some m.values else s.values K id' := by
  obtain ⟨hafter, hpos, -⟩ := h.after hid hroom
  have hholds (pos : Nat) (id' : SensorId) : (record K id m s).Holds K.toSensorConf pos id' ↔
      (findSensor K.toSensorConf id s).after.Holds K.toSensorConf pos id' :=
    forall_congr' fun j => Eq.congr_left (storeAll_index ..)
  have hentered : Entered K.toSensorConf all (enter ids id) (record K id m s) :=
    ⟨hafter.nodup, hafter.next, hafter.length_le,
      fun pos hlt => (hholds ..).mpr (hafter.held pos hlt),
      fun pos hlt hle id' hid' => mt (hholds ..).mp (hafter.unheld pos hlt hle id' hid')⟩
  refine ⟨hentered, fun id' hid' => ?_⟩
  have hvalue (pos : Nat) (i : Fin 3) : (record K id m s).sensorValues (K.valueIndex pos i) =
      if pos = (enter ids id).idxOf id then m.values i
      else s.sensorValues (K.valueIndex pos i) := by
    rw [← findSensor_valueIndex s id]
    refine (storeAll_valueStores ..).trans ?_
    rw [hpos, Int.toNat_natCast]
  rw [hentered.values_eq hid', h.values_eq hid']
  simp only [hvalue]
  by_cases heq : id' = id
  · subst heq
    simp [mem_enter]
  · have hmem : id' ∈ enter ids id ↔ id' ∈ ids := by
      unfold enter
      split <;> simp [heq]
    simp only [hmem, if_neg heq]
    by_cases hin : id' ∈ ids
    · have hne : (enter ids id).idxOf id' ≠ (enter ids id).idxOf id := fun h =>
        heq (List.idxOf_inj (hmem.mpr hin) |>.mp h)
      have hidx : (enter ids id).idxOf id' = ids.idxOf id' := by
        unfold enter
        split
        · rfl
        · exact List.idxOf_append_of_mem hin
      rw [hidx] at hne
      simp only [if_pos hin, hidx, if_neg hne]
    · simp only [if_neg hin]

/-! ### The devices of a port -/

namespace Device

/-- The family code. -/
abbrev family (d : Device) : UInt8 := d.rom.getD 0 0

/-- The id under which the device is in the table. -/
def sensorId (d : Device) : SensorId := fun i => d.rom.getD i 0

def Thermometer (d : Device) : Prop := d.family = ds18s20Id ∨ d.family = ds18b20Id

instance (d : Device) : Decidable d.Thermometer := inferInstanceAs (Decidable (_ ∨ _))

/-- What the device tells with its scratchpad, if its checksum is right. -/
def reading (d : Device) : Option Meas :=
  if crc8 d.scratchpad ≠ 0 then none else some (measToCel d.family d.scratchpad)

@[simp] theorem reading_reset (d : Device) : d.reset.reading = d.reading := rfl

theorem sensorId_inj {d e : Device} (h : d.sensorId = e.sensorId) : d.rom = e.rom := by
  refine List.ext_getElem (by rw [d.length_rom, e.length_rom]) fun i hi hi' => ?_
  have hget := congrFun h ⟨i, by rwa [d.length_rom] at hi⟩
  simpa [sensorId, hi, hi'] using hget

end Device

variable {ds : List Device} {d : Device}

theorem mem_of_reset {ds' : List Device} (h : ds'.map Device.reset = ds.map Device.reset)
    (hd : d ∈ ds) : ∃ d' ∈ ds', d'.reset = d.reset := by
  have hmem : d.reset ∈ ds'.map Device.reset := h ▸ List.mem_map_of_mem hd
  exact List.mem_map.mp hmem

theorem map_rom_of_reset {ds' : List Device} (h : ds'.map Device.reset = ds.map Device.reset) :
    ds'.map Device.rom = ds.map Device.rom := by
  have hrom := congrArg (List.map Device.rom) h
  rwa [List.map_map, List.map_map] at hrom

theorem readMeas_of_read {β : Type*} {B : Bus β} {s s' : β} {id sp : List UInt8}
    (h : owBytesRd B 9 (owCommand B 0xbe (some id) (B.owReset s).2) = (sp, s')) :
    readMeas B id s = (if crc8 sp ≠ 0 then none else some (measToCel (id.getD 0 0) sp), s') := by
  simp only [readMeas, h]

/-- `DS18X20_read_meas` reads what the device with the ROM code tells. -/
theorem readMeas_eq (hd : d ∈ ds) (hroms : (ds.map Device.rom).Nodup) :
    ∃ ds', readMeas wire d.rom ds = (d.reading, ds') ∧
      ds'.map Device.reset = ds.map Device.reset := by
  have hmap : (ds.map Device.reset).map Device.rom = ds.map Device.rom := by
    rw [List.map_map]
    rfl
  obtain ⟨hsends, hcommand⟩ := owCommand_read (List.mem_map_of_mem (f := Device.reset) hd)
    (hmap ▸ hroms)
  obtain ⟨ds', hbytes, hread⟩ := owBytesRd_of_sends hsends
  rw [d.reset_rom, d.reset_scratchpad, d.length_scratchpad] at hbytes
  refine ⟨ds', ?_, hread.trans (hcommand.trans ?_)⟩
  · exact readMeas_of_read hbytes
  · rw [List.map_map]
    rfl

/-- What the update does with a device that was found. -/
def enterReading (K : ValueConf) (s : Sensors) (d : Device) : Sensors :=
  if d.Thermometer then
    match d.reading with
    | some m => record K d.sensorId m s
    | none => s
  else s

/-- The loop of `updateOWSensors` enters what the devices tell that were found. -/
theorem readSensors_eq {found : List Device} {scan : Mem} {k : Nat}
    (hroms : (ds.map Device.rom).Nodup) (hfound : ∀ d ∈ found, d ∈ ds)
    (hscan : ∀ i (h : i < found.length), scan.read ((k + i) * 8) 8 = found[i].rom)
    {ds' : List Device} (hreset : ds'.map Device.reset = ds.map Device.reset) :
    ∃ ds'', readSensors wire K scan (List.range' k found.length) s ds' =
        (found.foldl (enterReading K) s, ds'') ∧
      ds''.map Device.reset = ds.map Device.reset := by
  induction found generalizing k s ds' with
  | nil => exact ⟨ds', rfl, hreset⟩
  | cons d found ih =>
    have hrom : scan.read (k * 8) 8 = d.rom := hscan 0 (by simp)
    have hbyte (o : Nat) (ho : o < 8) : scan (k * 8 + o) = d.rom.getD o 0 := by
      rw [← hrom, List.getD_eq_getElem?_getD, Mem.getElem?_read ho]
      rfl
    have hid : (fun o => scan (k * 8 + K.offset o)) = d.sensorId := by
      funext o
      rw [K.offset_eq, hbyte o o.isLt]
      rfl
    have hrest (s : Sensors) := @ih s (k + 1)
      (fun e he => hfound e (List.mem_cons_of_mem d he))
      (fun i hi => by
        rw [Nat.add_right_comm]
        exact hscan (i + 1) (by simpa using hi))
    obtain ⟨d', hd', heq⟩ := mem_of_reset hreset (hfound d List.mem_cons_self)
    obtain ⟨ds₁, hread, hreset₁⟩ := readMeas_eq hd' ((map_rom_of_reset hreset).symm ▸ hroms)
    have hreading : d'.reading = d.reading := by
      rw [← d'.reading_reset, heq, d.reading_reset]
    have hrom' : d'.rom = d.rom := by rw [← d'.reset_rom, heq, d.reset_rom]
    rw [hreading, hrom'] at hread
    have hfamily : scan (k * 8) = d.family := hbyte 0 (by decide)
    rw [List.length_cons, List.range'_succ, readSensors, List.foldl_cons, hrom, hid, hread, hfamily,
      enterReading]
    by_cases hthermo : d.Thermometer
    · rw [if_pos hthermo, if_pos (show _ ∨ _ from hthermo)]
      cases d.reading with
      | some m => exact hrest _ (hreset₁.trans hreset)
      | none => exact hrest _ (hreset₁.trans hreset)
    · rw [if_neg hthermo, if_neg (show ¬(_ ∨ _) from hthermo)]
      exact hrest _ hreset

/-- `search_sensors` finds the devices of a bus and leaves their ROM codes in `sensorScan`. -/
theorem searchSensors_devices (hroms : (ds.map Device.rom).Nodup) {maxSensors : Nat}
    (hmax : maxSensors ≤ 255) (hlen : ds.length ≤ maxSensors) {stack : List UInt8}
    (hstack : stack.length = 8) (scan : Mem) :
    ∃ (found : List Device) (n : UInt8) (scan' : Mem) (ds' : List Device), found.Perm ds ∧
      searchSensors wire maxSensors stack scan ds = (n, scan', ds') ∧ n.toNat = found.length ∧
      (∀ i (h : i < found.length), scan'.read (i * 8) 8 = found[i].rom) ∧
      ds'.map Device.reset = ds.map Device.reset := by
  obtain ⟨ids, n, ds', hids, hsearch, hn, hreset⟩ := searchSensors_finds hmax hstack scan ds
  have hperm := hids.perm
  rw [hroms.dedup] at hperm
  obtain ⟨found, rfl, hfound⟩ :
      ∃ found : List Device, ids = found.map Device.rom ∧ found.Perm ds := by
    have hcomp := congrFun₂ (List.eq_map_comp_perm Device.rom) ids ds
    exact hcomp.mpr hperm
  have hcount : (found.map Device.rom).length = found.length := List.length_map ..
  have hfits : found.length ≤ maxSensors := hfound.length_eq ▸ hlen
  rw [List.take_of_length_le (by rwa [hcount])] at hsearch
  rw [hcount, Nat.min_eq_right hfits] at hn
  refine ⟨found, n, _, ds', hfound, hsearch, hn, fun i h => ?_, hreset⟩
  have hread := Mem.read_write_flatten
    (show ∀ bs ∈ found.map Device.rom, bs.length = 8 by simp +contextual [Device.length_rom])
    scan 0 (i := i) (by rwa [hcount])
  rwa [List.getElem_map, Nat.zero_add] at hread

/-- The update finds the devices of a port and enters what they tell. -/
theorem readPort_eq (ds : List Device) (hroms : (ds.map Device.rom).Nodup)
    (hlen : ds.length ≤ K.maxsensors) {stack : List UInt8} (hstack : stack.length = 8)
    (scan : Mem) (s : Sensors) :
    ∃ (found : List Device) (n : UInt8) (scan' : Mem) (ds₁ ds' : List Device), found.Perm ds ∧
      searchSensors wire K.maxsensors stack scan ds = (n, scan', ds₁) ∧
      readSensors wire K scan' (List.range n.toNat) s ds₁ =
        (found.foldl (enterReading K) s, ds') ∧
      ds'.map Device.reset = ds.map Device.reset := by
  obtain ⟨found, n, scan', ds₁, hfound, hsearch, hn, hscan, hreset₁⟩ :=
    searchSensors_devices hroms K.lt_255.le hlen hstack scan
  obtain ⟨ds', hread, hreset⟩ := readSensors_eq (s := s) (k := 0) hroms
    (fun d hd => hfound.mem_iff.mp hd) (fun i h => by rw [Nat.zero_add]; exact hscan i h) hreset₁
  rw [← List.range_eq_range', ← hn] at hread
  exact ⟨found, n, scan', ds₁, ds', hfound, hsearch, hread, hreset⟩

theorem readPorts_cons {β : Type*} {B : Bus β} {stack : β → List UInt8} {t t₁ t' : β}
    {ports ports' : List β} {scan scan₁ scan' : Mem} {s₁ s' : Sensors} {n : UInt8}
    (hsearch : searchSensors B K.maxsensors (stack (owSelectPort B t)) scan (owSelectPort B t) =
      (n, scan₁, t₁))
    (hread : readSensors B K scan₁ (List.range n.toNat) s t₁ = (s₁, t'))
    (hports : readPorts B K stack ports scan₁ s₁ = (ports', scan', s')) :
    readPorts B K stack (t :: ports) scan s = (t' :: ports', scan', s') := by
  simp only [readPorts, hsearch, hread, hports]

/-- The update finds the devices of all ports and enters what they tell. -/
theorem readPorts_eq (ports : List (List Device)) {stack : List Device → List UInt8}
    (hroms : ∀ ds ∈ ports, (ds.map Device.rom).Nodup)
    (hlen : ∀ ds ∈ ports, ds.length ≤ K.maxsensors) (hstack : ∀ ds, (stack ds).length = 8)
    (scan : Mem) (s : Sensors) :
    ∃ (found : List Device) (ports' : List (List Device)) (scan' : Mem), found.Perm ports.flatten ∧
      readPorts wire K stack ports scan s = (ports', scan', found.foldl (enterReading K) s) ∧
      ports'.map (List.map Device.reset) = ports.map (List.map Device.reset) := by
  induction ports generalizing scan s with
  | nil => exact ⟨[], [], scan, by simp, rfl, rfl⟩
  | cons ds ports ih =>
    have hselect : (owSelectPort wire ds).map Device.rom = ds.map Device.rom := by
      rw [owSelectPort, show (wire.owReset ds).2 = ds.map Device.reset from rfl, List.map_map]
      rfl
    obtain ⟨found₁, n, scan₁, ds₁, ds', hperm₁, hsearch, hread, hreset₁⟩ :=
      readPort_eq (owSelectPort wire ds) (hselect ▸ hroms ds List.mem_cons_self)
        ((List.length_map ..).trans_le (hlen ds List.mem_cons_self))
        (hstack (owSelectPort wire ds)) scan s
    obtain ⟨found, rfl, hfound⟩ : ∃ found : List Device,
        found₁ = found.map Device.reset ∧ found.Perm ds := by
      have hcomp := congrFun₂ (List.eq_map_comp_perm Device.reset) found₁ ds
      exact hcomp.mpr hperm₁
    obtain ⟨found', ports', scan', hperm, hports, hreset⟩ := ih
      (fun es hes => hroms es (List.mem_cons_of_mem _ hes))
      (fun es hes => hlen es (List.mem_cons_of_mem _ hes)) scan₁ (found.foldl (enterReading K) s)
    refine ⟨found ++ found', ds' :: ports', scan', hfound.append hperm, ?_, ?_⟩
    · have henter : (found.map Device.reset).foldl (enterReading K) s =
          found.foldl (enterReading K) s := by
        rw [List.foldl_map]
        rfl
      rw [henter] at hread
      rw [List.foldl_append]
      exact readPorts_cons hsearch hread hports
    · rw [List.map_cons, List.map_cons, hreset, hreset₁, owSelectPort,
        show (wire.owReset ds).2 = ds.map Device.reset from rfl, List.map_map]
      rfl

/-! ### What the table holds -/

theorem length_enter_le (hnodup : ids.Nodup) (hids : ∀ id ∈ ids, id ∈ all) (hid : id ∈ all) :
    (enter ids id).length ≤ all.length := by
  have hsub : enter ids id ⊆ all := by
    unfold enter
    split
    · exact hids
    · exact List.append_subset.mpr ⟨hids, List.cons_subset.mpr ⟨hid, List.nil_subset all⟩⟩
  have hnodup' : (enter ids id).Nodup := by
    unfold enter
    split
    · exact hnodup
    · next h => exact List.nodup_append.mpr ⟨hnodup, by simp, fun a ha b hb => by grind⟩
  exact (List.subperm_of_subset hnodup' hsub).length_le

/-- A device that was found changes the values under its own id only. -/
theorem Entered.afterReading (h : Entered K.toSensorConf all ids s) (hids : ∀ id ∈ ids, id ∈ all)
    (hall : d.Thermometer → d.sensorId ∈ all) (hroom : all.length ≤ K.maxsensors) :
    ∃ ids', Entered K.toSensorConf all ids' (enterReading K s d) ∧ (∀ id ∈ ids', id ∈ all) ∧
      ∀ id ∈ all, (enterReading K s d).values K id =
        if d.Thermometer ∧ id = d.sensorId then (d.reading.map Meas.values).or (s.values K id)
        else s.values K id := by
  unfold enterReading
  by_cases hthermo : d.Thermometer
  · rw [if_pos hthermo]
    simp only [hthermo, true_and]
    cases d.reading with
    | none => exact ⟨ids, h, hids, fun id _ => by simp⟩
    | some m =>
      have hid := hall hthermo
      obtain ⟨hentered, hvalues⟩ := h.afterRecord hid
        ((length_enter_le h.nodup hids hid).trans hroom) m
      refine ⟨enter ids d.sensorId, hentered, fun id hmem => ?_, hvalues⟩
      unfold enter at hmem
      split at hmem
      · exact hids id hmem
      · rcases List.mem_append.mp hmem with hmem | hmem
        · exact hids id hmem
        · exact List.mem_singleton.mp hmem ▸ hid
  · rw [if_neg hthermo]
    exact ⟨ids, h, hids, fun id _ => by simp [hthermo]⟩

/-- The table after an update: each thermometer's values are new, if it told any. -/
theorem Entered.afterReadings {found : List Device} (h : Entered K.toSensorConf all ids s)
    (hids : ∀ id ∈ ids, id ∈ all) (hall : ∀ d ∈ found, d.Thermometer → d.sensorId ∈ all)
    (hroom : all.length ≤ K.maxsensors) (hnodup : (found.map Device.sensorId).Nodup) :
    ∃ ids', Entered K.toSensorConf all ids' (found.foldl (enterReading K) s) ∧
      (∀ id ∈ ids', id ∈ all) ∧
      (∀ id ∈ all, id ∉ found.map Device.sensorId →
        (found.foldl (enterReading K) s).values K id = s.values K id) ∧
      ∀ d ∈ found, d.Thermometer → (found.foldl (enterReading K) s).values K d.sensorId =
        (d.reading.map Meas.values).or (s.values K d.sensorId) := by
  induction found generalizing ids s with
  | nil => exact ⟨ids, h, hids, fun _ _ _ => rfl, by simp⟩
  | cons d found ih =>
    rw [List.map_cons, List.nodup_cons] at hnodup
    have hthermo := hall d List.mem_cons_self
    obtain ⟨ids₁, hentered₁, hids₁, hvalues⟩ := h.afterReading hids hthermo hroom
    obtain ⟨ids', hentered, hids', hsame, hnew⟩ := ih hentered₁ hids₁
      (fun e he => hall e (List.mem_cons_of_mem d he)) hnodup.2
    refine ⟨ids', hentered, hids', fun id hid hnot => ?_, fun e he het => ?_⟩
    · rw [List.map_cons, List.mem_cons, not_or] at hnot
      rw [List.foldl_cons, hsame id hid hnot.2, hvalues id hid, if_neg fun h => hnot.1 h.2]
    · rw [List.foldl_cons]
      rcases List.mem_cons.mp he with rfl | he
      · rw [hsame _ (hthermo het) hnodup.1, hvalues _ (hthermo het), if_pos ⟨het, rfl⟩]
      · have hne : e.sensorId ≠ d.sensorId := fun heq =>
          hnodup.1 (heq ▸ List.mem_map_of_mem he)
        rw [hnew e he het, hvalues _ (hall e (List.mem_cons_of_mem d he) het),
          if_neg fun h => hne h.2]

/-! ### Rounds -/

/-- What happens between two updates that read: what the devices measure, by their ROM codes, and
what the calls of `search_sensors` find on the stack. -/
structure Round where
  measured : List UInt8 → { sp : List UInt8 // sp.length = 9 }
  stack : List Device → { id : List UInt8 // id.length = 8 }

namespace Device

/-- The device after a change of what it measures. -/
def measure (r : Round) (d : Device) : Device :=
  { d with measured := r.measured d.rom, length_measured := (r.measured d.rom).2 }

/-- The device after a conversion of that. -/
def sensed (r : Round) (d : Device) : Device := (d.measure r).convert

theorem reading_sensed (r : Round) (d : Device) : (d.sensed r).reading =
    if crc8 (r.measured d.rom) ≠ 0 then none
    else some (measToCel (d.rom.getD 0 0) (r.measured d.rom)) := rfl

end Device

/-- A pair of updates: the first one starts the measurements, and the second one reads them. -/
def Board.round (K : ValueConf) (b : Board (List Device)) (r : Round) : Board (List Device) :=
  let update := updateOWSensors wire K fun s => (r.stack s).1
  update (update { b with ports := b.ports.map (List.map (Device.measure r)) })

/-- What a device measured last, of the rounds in which its scratchpad had the right checksum. -/
def lastValues (rom : List UInt8) (rounds : List Round) : Option (Fin 3 → UInt8) :=
  rounds.foldl (fun last r =>
    if crc8 (r.measured rom) ≠ 0 then last
    else some (measToCel (rom.getD 0 0) (r.measured rom)).values) none

theorem startMeas_of_high {β : Type*} {B : Bus β} {t : β} {id : Option (List UInt8)}
    (h : B.owInputPinState (B.owReset t).2 = true) :
    startMeas B false id t = (true, B.owParasiteEnable (owCommand B 0x44 id (B.owReset t).2)) := by
  simp [startMeas, h]

theorem startMeas_eq (ds : List Device) :
    (startMeas wire false none (owSelectPort wire ds)).2 =
      ds.map fun d => d.convert.into .idle := by
  have hparasite (es : List Device) : wire.owParasiteEnable es = es := rfl
  have hreset (es : List Device) : (wire.owReset es).2 = es.map Device.reset := rfl
  rw [startMeas_of_high rfl, hparasite, owCommand_none, owSelectPort, hreset, hreset, List.map_map,
    List.map_map]
  refine List.map_congr_left fun d _ => ?_
  simp only [Function.comp_apply, Device.reset, Device.into_into]
  exact d.convert_hears

/-- The devices of the board and the ids in its table, between two rounds. -/
structure Ready (K : ValueConf) (all : List SensorId) (b : Board (List Device)) : Prop where
  conv : b.ds18b20Conv = false
  roms : (b.ports.flatten.map Device.rom).Nodup
  length_le : ∀ ds ∈ b.ports, ds.length ≤ K.maxsensors
  mem_all : ∀ d ∈ b.ports.flatten, d.Thermometer → d.sensorId ∈ all
  entered : ∃ ids, Entered K.toSensorConf all ids b.sensors ∧ ∀ id ∈ ids, id ∈ all

theorem Device.thermometer_congr {e : Device} (h : d.rom = e.rom) :
    d.Thermometer ↔ e.Thermometer := by
  rw [Thermometer, Thermometer, family, family, h]

theorem Device.sensorId_congr {e : Device} (h : d.rom = e.rom) : d.sensorId = e.sensorId := by
  unfold sensorId
  rw [h]

theorem map_flatten_rom {ports ports' : List (List Device)}
    (h : ports'.map (List.map Device.rom) = ports.map (List.map Device.rom)) :
    ports'.flatten.map Device.rom = ports.flatten.map Device.rom := by
  rw [List.map_flatten, List.map_flatten, h]

theorem Ready.congr {b b' : Board (List Device)} (h : Ready K all b)
    (hports : b'.ports.map (List.map Device.rom) = b.ports.map (List.map Device.rom))
    (hconv : b'.ds18b20Conv = false)
    (hentered : ∃ ids, Entered K.toSensorConf all ids b'.sensors ∧ ∀ id ∈ ids, id ∈ all) :
    Ready K all b' := by
  refine ⟨hconv, map_flatten_rom hports ▸ h.roms, fun ds hds => ?_, fun d hd hthermo => ?_,
    hentered⟩
  · have hmem := hports ▸ List.mem_map_of_mem (f := List.map Device.rom) hds
    obtain ⟨es, hes, heq⟩ := List.mem_map.mp hmem
    have hlen := congrArg List.length heq
    rw [List.length_map, List.length_map] at hlen
    exact hlen ▸ h.length_le es hes
  · have hmem := map_flatten_rom hports ▸ List.mem_map_of_mem (f := Device.rom) hd
    obtain ⟨e, he, heq⟩ := List.mem_map.mp hmem
    exact Device.sensorId_congr heq ▸ h.mem_all e he ((Device.thermometer_congr heq).mpr hthermo)

theorem Ready.sensorIds {b : Board (List Device)} (h : Ready K all b) :
    (b.ports.flatten.map Device.sensorId).Nodup :=
  List.pairwise_map.mpr ((List.pairwise_map.mp h.roms).imp fun hne heq =>
    hne (Device.sensorId_inj heq))

/-- A round leaves the devices on their ports, and enters what they measured. -/
theorem Ready.round {b : Board (List Device)} (h : Ready K all b)
    (hroom : all.length ≤ K.maxsensors) (r : Round) :
    Ready K all (b.round K r) ∧
      (b.round K r).ports.map (List.map Device.rom) = b.ports.map (List.map Device.rom) ∧
      ∀ d ∈ b.ports.flatten, d.Thermometer → (b.round K r).sensors.values K d.sensorId =
        ((d.sensed r).reading.map Meas.values).or (b.sensors.values K d.sensorId) := by
  obtain ⟨ids, hentered, hids⟩ := h.entered
  let ports := b.ports.map (List.map fun d => (d.sensed r).into .idle)
  have hflat : ports.flatten = b.ports.flatten.map fun d => (d.sensed r).into .idle :=
    List.map_flatten.symm
  have hstart : updateOWSensors wire K (fun s => (r.stack s).1)
      { b with ports := b.ports.map (List.map (Device.measure r)) } =
        { b with ports, ds18b20Conv := true } := by
    simp only [updateOWSensors, h.conv, Bool.not_false, ↓reduceIte, List.map_map, ports]
    refine congrArg (fun ports => Board.mk ports true b.sensorScan b.sensors) ?_
    refine List.map_congr_left fun ds _ => (startMeas_eq _).trans ?_
    rw [List.map_map]
    rfl
  have hsub (ds : List Device) (hds : ds ∈ ports) :
      ∃ es ∈ b.ports, ds = es.map fun d => (d.sensed r).into .idle := by
    obtain ⟨es, hes, rfl⟩ := List.mem_map.mp hds
    exact ⟨es, hes, rfl⟩
  obtain ⟨found, ports', scan', hfound, hread, hreset⟩ := readPorts_eq (K := K) ports
    (fun ds hds => by
      obtain ⟨es, hes, rfl⟩ := hsub ds hds
      rw [List.map_map]
      exact (List.nodup_flatten.mp (List.map_flatten ▸ h.roms)).1 _ (List.mem_map_of_mem hes))
    (fun ds hds => by
      obtain ⟨es, hes, rfl⟩ := hsub ds hds
      exact (List.length_map ..).trans_le (h.length_le es hes))
    (fun ds => show ((fun s => (r.stack s).1) ds).length = 8 from (r.stack ds).2)
    b.sensorScan b.sensors
  have hround : b.round K r = ⟨ports', false, scan', found.foldl (enterReading K) b.sensors⟩ := by
    simp only [Board.round, hstart]
    simp only [updateOWSensors, Bool.not_true, Bool.false_eq_true, ↓reduceIte, hread]
  have hroms : ports'.map (List.map Device.rom) = b.ports.map (List.map Device.rom) := by
    have hports := congrArg (List.map (List.map Device.rom)) hreset
    have hkeep {f : Device → Device} (hf : ∀ d, (f d).rom = d.rom) (ps : List (List Device)) :
        (ps.map (List.map f)).map (List.map Device.rom) = ps.map (List.map Device.rom) := by
      rw [List.map_map]
      exact List.map_congr_left fun ds _ => by simp [hf]
    rwa [hkeep Device.reset_rom, hkeep Device.reset_rom,
      hkeep (f := fun d => (d.sensed r).into .idle) fun _ => rfl] at hports
  have hmem (e : Device) (he : e ∈ found) :
      ∃ d ∈ b.ports.flatten, e = (d.sensed r).into .idle := by
    have hflatten := hfound.mem_iff.mp he
    rw [hflat] at hflatten
    obtain ⟨d, hd, rfl⟩ := List.mem_map.mp hflatten
    exact ⟨d, hd, rfl⟩
  have hnodup : (found.map Device.sensorId).Nodup := by
    refine ((hfound.map _).nodup_iff).mpr ?_
    rw [hflat, List.map_map]
    exact h.sensorIds
  obtain ⟨ids', hentered', hids', -, hnew⟩ := hentered.afterReadings hids
    (fun e he hthermo => by
      obtain ⟨d, hd, rfl⟩ := hmem e he
      exact h.mem_all d hd hthermo) hroom hnodup
  rw [hround]
  refine ⟨h.congr hroms rfl ⟨ids', hentered', hids'⟩, hroms, fun d hd hthermo => ?_⟩
  refine hnew ((d.sensed r).into .idle) (hfound.mem_iff.mpr ?_) hthermo
  rw [hflat]
  exact List.mem_map_of_mem hd

/-- After rounds the table holds for each thermometer what it measured last. -/
theorem Ready.rounds {b : Board (List Device)} (h : Ready K all b)
    (hroom : all.length ≤ K.maxsensors) (rounds : List Round) :
    ∀ d ∈ b.ports.flatten, d.Thermometer →
      (rounds.foldl (Board.round K) b).sensors.values K d.sensorId =
        rounds.foldl (fun last r => ((d.sensed r).reading.map Meas.values).or last)
          (b.sensors.values K d.sensorId) := by
  induction rounds generalizing b with
  | nil => exact fun _ _ _ => rfl
  | cons r rounds ih =>
    intro d hd hthermo
    obtain ⟨hready, hports, hvalues⟩ := h.round hroom r
    have hmem := map_flatten_rom hports ▸ List.mem_map_of_mem (f := Device.rom) hd
    obtain ⟨e, he, heq⟩ := List.mem_map.mp hmem
    have hsensed (r : Round) : (e.sensed r).reading = (d.sensed r).reading := by
      rw [Device.reading_sensed, Device.reading_sensed, heq]
    have hrounds := ih hready e he ((Device.thermometer_congr heq).mpr hthermo)
    simp only [hsensed, Device.sensorId_congr heq] at hrounds
    rw [List.foldl_cons, hrounds, hvalues d hd hthermo, List.foldl_cons]

/-- From a table without any of the thermometers of the board, and with room for all of them, the
table holds after any number of rounds, for each thermometer of each port, the degrees, the
sixteenths and the sign of what it measured last with the right checksum. -/
theorem updateOWSensors_rounds (K : ValueConf) (b : Board (List Device)) (rounds : List Round)
    (hconv : b.ds18b20Conv = false) (hroms : (b.ports.flatten.map Device.rom).Nodup)
    (hlen : ∀ ds ∈ b.ports, ds.length ≤ K.maxsensors)
    (hroom : b.ports.flatten.countP (·.Thermometer) ≤ K.maxsensors)
    (hnext : b.sensors.nextSensorPos = 0)
    (hnew : ∀ pos < K.maxsensors, ∀ d ∈ b.ports.flatten, d.Thermometer →
      ¬b.sensors.Holds K.toSensorConf pos d.sensorId) :
    ∀ d ∈ b.ports.flatten, d.Thermometer →
      (rounds.foldl (Board.round K) b).sensors.values K d.sensorId = lastValues d.rom rounds := by
  let all := (b.ports.flatten.filter (·.Thermometer)).map Device.sensorId
  have hstart : Entered K.toSensorConf all [] b.sensors := by
    refine ⟨.nil, by rw [hnext]; rfl, Nat.zero_le _, by simp, fun pos hpos _ id hid => ?_⟩
    obtain ⟨d, hd, rfl⟩ := List.mem_map.mp hid
    obtain ⟨hd, hthermo⟩ := List.mem_filter.mp hd
    exact hnew pos hpos d hd (of_decide_eq_true hthermo)
  have hall : ∀ d ∈ b.ports.flatten, d.Thermometer → d.sensorId ∈ all := fun d hd hthermo =>
    List.mem_map_of_mem (List.mem_filter.mpr ⟨hd, decide_eq_true hthermo⟩)
  have hready : Ready K all b := ⟨hconv, hroms, hlen, hall, [], hstart, by simp⟩
  intro d hd hthermo
  have hnone : b.sensors.values K d.sensorId = none := by
    rw [hstart.values_eq (hall d hd hthermo), if_neg (by simp)]
  rw [hready.rounds (by rwa [List.length_map, ← List.countP_eq_length_filter]) rounds d hd hthermo,
    hnone, lastValues]
  congr 1
  funext last r
  rw [Device.reading_sensed]
  by_cases hcrc : crc8 (r.measured d.rom) ≠ 0
  · rw [if_pos hcrc, if_pos hcrc]
    rfl
  · rw [if_neg hcrc, if_neg hcrc]
    rfl

/-- A table of three entries with ids and values. -/
def threeEntries : ValueConf where
  toSensorConf := ⟨3, 11, Fin.val, by decide, by decide, fun i => by omega, fun _ _ => Fin.ext⟩
  valueOffset i := 8 + i
  valueOffset_lt i := by omega
  valueOffset_inj i j h := by
    simp only at h
    omega
  valueOffset_ne i j := by omega
  offset_eq _ := rfl

/-- A board with a thermometer and a button on the first port, before the first update. -/
def firstBoard : Board (List Device) := ⟨[twoDevices, [], []], false, fun _ => 0, ⟨fun _ => 0, 0⟩⟩

/-- The devices measure 25 degrees and a sixteenth. -/
def warmRound : Round where
  measured _ := ⟨[0x91, 0x01, 0x4b, 0x46, 0x7f, 0xff, 0x0f, 0x10, 0x25], rfl⟩
  stack _ := ⟨List.replicate 8 0, rfl⟩

theorem updateOWSensors_rounds_first :
    ([warmRound].foldl (Board.round threeEntries) firstBoard).sensors.values threeEntries
      thermometer.sensorId = some ![25, 1, 0x2b] := by
  rw [updateOWSensors_rounds threeEntries firstBoard [warmRound] rfl (by decide) (by decide)
    (by decide) rfl (by decide) thermometer (by decide) (by decide)]
  decide +kernel

/-! ### The system id -/

theorem systemId_eq {found : List Device} {scan : Mem} {n : Nat} (hn : n ≤ found.length)
    (hscan : ∀ i (h : i < found.length), scan.read (i * 8) 8 = found[i].rom) (id : List UInt8) :
    systemId scan n id =
      ((found.take n).filter (·.family = 0x01)).foldl (fun _ d => d.rom) id := by
  induction n with
  | zero => rfl
  | succ n ih =>
    have hrom := hscan n hn
    have hfamily : scan (n * 8) = found[n].family := by
      rw [Device.family, ← hrom, List.getD_eq_getElem?_getD, Mem.getElem?_read (by decide)]
      rfl
    rw [systemId, List.range_succ, List.foldl_append, ← systemId, ih (Nat.le_of_succ_le hn),
      List.foldl_cons, List.foldl_nil, hrom, hfamily, List.take_succ_eq_append_getElem hn,
      List.filter_append, List.foldl_append]
    by_cases hid : found[n].family = 0x01
    · have hkeep : [found[n]].filter (·.family = 0x01) = [found[n]] :=
        List.filter_cons_of_pos (decide_eq_true hid)
      rw [if_pos hid, hkeep]
      rfl
    · have hdrop : [found[n]].filter (·.family = 0x01) = [] :=
        List.filter_cons_of_neg (by rwa [decide_eq_true_iff])
      rw [if_neg hid, hdrop]
      rfl

/-- `findSystemID` finds the ROM code of the device of the family 0x01 on the bus of the first port,
and leaves the id as it is if there is none. -/
theorem findSystemID_finds (hroms : (ds.map Device.rom).Nodup) (hlen : ds.length ≤ K.maxsensors)
    {stack : List UInt8} (hstack : stack.length = 8) (id : List UInt8) (scan : Mem) :
    (∀ d, ds.filter (·.family = 0x01) = [d] →
        (findSystemID wire K stack id scan ds).1 = d.rom) ∧
      (ds.filter (·.family = 0x01) = [] → (findSystemID wire K stack id scan ds).1 = id) := by
  have hselect : owSelectPort wire ds = ds.map Device.reset := rfl
  have hmap : (ds.map Device.reset).map Device.rom = ds.map Device.rom := by
    rw [List.map_map]
    rfl
  obtain ⟨found, n, scan', ds', hfound, hsearch, hn, hscan, -⟩ := searchSensors_devices
    (hmap ▸ hroms) K.lt_255.le ((List.length_map ..).trans_le hlen) hstack scan
  have hid : (findSystemID wire K stack id scan ds).1 =
      (found.filter (·.family = 0x01)).foldl (fun _ d => d.rom) id := by
    have heq := systemId_eq (Nat.le_refl _) hscan id
    rw [found.take_length] at heq
    simp only [findSystemID, hselect, hsearch, hn, heq]
  have hperm : (found.filter (·.family = 0x01)).Perm
      ((ds.filter (·.family = 0x01)).map Device.reset) := by
    have hfilter := hfound.filter (·.family = 0x01)
    rwa [List.filter_map] at hfilter
  rw [hid]
  refine ⟨fun d hd => ?_, fun hnil => ?_⟩
  · rw [hd] at hperm
    rw [List.perm_singleton.mp hperm]
    rfl
  · rw [hnil] at hperm
    rw [List.perm_nil.mp hperm]
    rfl

theorem findSystemID_finds_first :
    (findSystemID wire threeEntries (List.replicate 8 0) (List.replicate 8 0) (fun _ => 0)
      twoDevices).1 = button.rom :=
  (findSystemID_finds (by decide) (by decide) (by decide) (List.replicate 8 0) fun _ => 0).1 button
    (by decide)

end OneWire

end OpenPLC
