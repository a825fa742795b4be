import OpenPLC.Lib.Bytes
import Mathlib.Data.Fintype.Basic
import Mathlib.Data.List.Dedup

/-! The table of the temperature sensors (`ds18x20.c`).  `findSensor` looks an id up in the table,
and enters a new one at a position that goes around the table.  The position goes around after the
table's size and not at it, so that the first id that does not fit is stored behind the table. -/

namespace OpenPLC

open Lib

namespace OneWire

/-- An id of eight bytes: `family`, `id1` to `id6`, `crc` -/
abbrev SensorId := Fin 8 → UInt8

/-- `MAXSENSORS`, `SENSORSIZE`, and the offsets `FAMILY`, `ID1` to `ID6`, `CRC` -/
structure SensorConf where
  maxsensors : Nat
  sensorsize : Nat
  offset : Fin 8 → Nat
  one_le : 1 ≤ maxsensors
  lt_255 : maxsensors < 255
  offset_lt : ∀ i, offset i < sensorsize
  offset_inj : Function.Injective offset

/-- `sensorValues` with the memory behind it, and `nextSensorPos` -/
structure Sensors where
  sensorValues : Mem
  nextSensorPos : UInt8

/-- What a call of `findSensor` returns, the entries that it stores, and the state after it. -/
structure Found where
  pos : Int
  stores : List (Nat × UInt8)
  after : Sensors

variable (K : SensorConf)

/-- The index of a byte of the id at a position. -/
def SensorConf.index (pos : Nat) (i : Fin 8) : Nat := pos * K.sensorsize + K.offset i

/-- The comparison of `findSensor`. -/
def Sensors.Holds (s : Sensors) (pos : Nat) (id : SensorId) : Prop :=
  ∀ i, s.sensorValues (K.index pos i) = id i

instance (s : Sensors) (pos : Nat) (id : SensorId) : Decidable (s.Holds K pos id) :=
  inferInstanceAs (Decidable (∀ _, _))

/-- Store entries one after the other. -/
def storeAll (m : Mem) (es : List (Nat × UInt8)) : Mem :=
  es.foldl (fun m e => m.write e.1 [e.2]) m

/-- `findSensor` -/
def findSensor (id : SensorId) (s : Sensors) : Found :=
  match (List.range K.maxsensors).find? fun pos => s.Holds K pos id with
  | some pos => ⟨pos, [], s⟩
  | none =>
    let next := if K.maxsensors < s.nextSensorPos.toNat then 0 else s.nextSensorPos
    let stores := (List.finRange 8).map fun i => (K.index next.toNat i, id i)
    ⟨(next + 1).toNat - 1, stores, ⟨storeAll s.sensorValues stores, next + 1⟩⟩

/-- A call of `findSensor` and the state before it. -/
structure FindCall where
  before : Sensors
  id : SensorId
  found : Found

/-- A sequence of calls. -/
def calls : List SensorId → Sensors → List FindCall
  | [], _ => []
  | id :: ids, s => ⟨s, id, findSensor K id s⟩ :: calls ids (findSensor K id s).after

/-- The id is not in the table before the call. -/
def FindCall.New (c : FindCall) : Prop := ∀ pos < K.maxsensors, ¬c.before.Holds K pos c.id

instance (c : FindCall) : Decidable (c.New K) := inferInstanceAs (Decidable (∀ _ < _, _))

/-- A call returns a position of the table, stores inside it, and leaves the id at that position
only. -/
structure FindCall.Bounded (c : FindCall) : Prop where
  pos_nonneg : 0 ≤ c.found.pos
  pos_lt : c.found.pos < K.maxsensors
  inside : ∀ e ∈ c.found.stores, e.1 < K.maxsensors * K.sensorsize
  stored : c.found.after.Holds K c.found.pos.toNat c.id
  once : ∀ pos < K.maxsensors, c.found.after.Holds K pos c.id → pos = c.found.pos

/-- A sequence of calls uses the table as a map: an id keeps its position until as many new ids as
the table has positions are entered. -/
structure BoundedMap (cs : List FindCall) : Prop where
  bounded : ∀ c ∈ cs, c.Bounded K
  stable : ∀ pre c mid c' post, cs = pre ++ c :: (mid ++ c' :: post) → c'.id = c.id → c.New K →
    mid.countP (·.New K) < K.maxsensors → c'.found.pos = c.found.pos

/-! ### Stores -/

variable {K}

theorem index_inj {pos pos' : Nat} {i i' : Fin 8} (h : K.index pos i = K.index pos' i') :
    pos = pos' ∧ i = i' := by
  have hdiv : ∀ p j, K.index p j / K.sensorsize = p := by
    intro p j
    have hlt := K.offset_lt j
    rw [SensorConf.index, Nat.add_comm, Nat.add_mul_div_right _ _ (by omega),
      Nat.div_eq_of_lt hlt, Nat.zero_add]
  have hpos : pos = pos' := by rw [← hdiv pos i, h, hdiv]
  subst hpos
  exact ⟨rfl, K.offset_inj (Nat.add_left_cancel h)⟩

theorem index_lt {pos : Nat} (h : pos < K.maxsensors) (i : Fin 8) :
    K.index pos i < K.maxsensors * K.sensorsize := by
  have hlt := K.offset_lt i
  calc K.index pos i
    _ < (pos + 1) * K.sensorsize := by rw [SensorConf.index, Nat.succ_mul]; omega
    _ ≤ K.maxsensors * K.sensorsize := Nat.mul_le_mul_right _ h

theorem storeAll_apply_of_ne {m : Mem} {es : List (Nat × UInt8)} {a : Nat}
    (h : ∀ e ∈ es, e.1 ≠ a) : storeAll m es a = m a := by
  induction es generalizing m with
  | nil => rfl
  | cons e es ih =>
    refine (ih fun e' he' => h e' (List.mem_cons_of_mem e he')).trans ?_
    have hne := h e List.mem_cons_self
    simp only [Mem.write, List.length_singleton]
    rw [if_neg (by omega)]

theorem storeAll_apply_of_mem {m : Mem} {es : List (Nat × UInt8)} {e : Nat × UInt8} (he : e ∈ es)
    (h : ∀ e' ∈ es, e'.1 = e.1 → e' = e) : storeAll m es e.1 = e.2 := by
  induction es generalizing m with
  | nil => cases he
  | cons e' es ih =>
    by_cases hmem : e ∈ es
    · exact ih hmem fun e'' he'' => h e'' (List.mem_cons_of_mem e' he'')
    · obtain rfl : e = e' := (List.mem_cons.mp he).resolve_right hmem
      have hrest : storeAll (m.write e.1 [e.2]) es e.1 = m.write e.1 [e.2] e.1 :=
        storeAll_apply_of_ne fun e'' he'' heq =>
          hmem (h e'' (List.mem_cons_of_mem e he'') heq ▸ he'')
      exact hrest.trans (by simp [Mem.write])

/-- An id that is stored at a position is there, and the other positions keep theirs. -/
theorem holds_storeAll {m : Mem} {n : UInt8} {pos pos' : Nat} {id id' : SensorId} :
    (Sensors.mk (storeAll m ((List.finRange 8).map fun i => (K.index pos i, id i))) n).Holds K pos'
        id' ↔ if pos' = pos then id' = id else (Sensors.mk m n).Holds K pos' id' := by
  have hself (i : Fin 8) :
      storeAll m ((List.finRange 8).map fun i => (K.index pos i, id i)) (K.index pos i) = id i := by
    refine storeAll_apply_of_mem (e := (K.index pos i, id i))
      (List.mem_map.mpr ⟨i, List.mem_finRange i, rfl⟩) fun e' he' heq => ?_
    obtain ⟨j, -, rfl⟩ := List.mem_map.mp he'
    rw [(index_inj heq).2]
  split
  · next h =>
    subst h
    simp only [Sensors.Holds, hself]
    exact ⟨fun h => (funext h).symm, fun h i => (congrFun h i).symm⟩
  · next h =>
    refine forall_congr' fun i => ?_
    have hother : storeAll m ((List.finRange 8).map fun i => (K.index pos i, id i))
        (K.index pos' i) = m (K.index pos' i) := by
      refine storeAll_apply_of_ne fun e he heq => ?_
      obtain ⟨j, -, rfl⟩ := List.mem_map.mp he
      exact h (index_inj heq).1.symm
    simp only [hother]

/-! ### The ids in the table -/

/-- The ids in the table after a call for `id`, until the table is full. -/
def enter (ids : List SensorId) (id : SensorId) : List SensorId :=
  if id ∈ ids then ids else ids ++ [id]

theorem mem_enter (ids : List SensorId) (id : SensorId) : id ∈ enter ids id := by
  unfold enter
  split
  · assumption
  · simp

theorem prefix_foldl_enter (ids new : List SensorId) : ids <+: new.foldl enter ids := by
  induction new generalizing ids with
  | nil => exact List.prefix_rfl
  | cons id new ih =>
    refine List.IsPrefix.trans ?_ (ih (enter ids id))
    unfold enter
    split
    · exact List.prefix_rfl
    · exact List.prefix_append ..

theorem length_foldl_enter (ids : List SensorId) :
    (ids.foldl enter []).length = ids.dedup.length := by
  have hinv (ds : List SensorId) (hds : ds.Nodup) :
      (ids.foldl enter ds).Nodup ∧ ∀ id, id ∈ ids.foldl enter ds ↔ id ∈ ds ∨ id ∈ ids := by
    induction ids generalizing ds with
    | nil => exact ⟨hds, by simp⟩
    | cons id ids ih =>
      obtain ⟨hnodup, hmem⟩ : (enter ds id).Nodup ∧
          ∀ id', id' ∈ enter ds id ↔ id' ∈ ds ∨ id' = id := by
        unfold enter
        split
        · next h => exact ⟨hds, fun id' => by grind⟩
        · next h => exact ⟨List.nodup_append.mpr ⟨hds, by simp, by grind⟩, by simp⟩
      obtain ⟨hnodup', hmem'⟩ := ih (enter ds id) hnodup
      refine ⟨hnodup', fun id' => ?_⟩
      rw [List.foldl_cons, hmem', hmem, List.mem_cons, or_assoc]
  obtain ⟨hnodup, hmem⟩ := hinv [] .nil
  refine List.Perm.length_eq ((List.perm_ext_iff_of_nodup hnodup (List.nodup_dedup ids)).mpr ?_)
  intro id
  simp [hmem]

variable {s : Sensors} {all ids ds : List SensorId} {id : SensorId}

/-- The table holds `ds` at its first positions, and none of the ids `all` behind them. -/
structure Entered (K : SensorConf) (all ds : List SensorId) (s : Sensors) : Prop where
  nodup : ds.Nodup
  next : s.nextSensorPos.toNat = ds.length
  length_le : ds.length ≤ K.maxsensors
  held : ∀ pos (h : pos < ds.length), s.Holds K pos ds[pos]
  unheld : ∀ pos < K.maxsensors, ds.length ≤ pos → ∀ id ∈ all, ¬s.Holds K pos id

theorem Sensors.Holds.eq {pos : Nat} {id' : SensorId} (h : s.Holds K pos id)
    (h' : s.Holds K pos id') : id = id' := funext fun i => (h i).symm.trans (h' i)

namespace Entered

theorem holds_iff (h : Entered K all ds s) (hid : id ∈ all) {pos : Nat}
    (hpos : pos < K.maxsensors) : s.Holds K pos id ↔ ds[pos]? = some id := by
  by_cases hlt : pos < ds.length
  · rw [List.getElem?_eq_getElem hlt, Option.some_inj]
    have hheld := h.held pos hlt
    exact ⟨fun hpos => hheld.eq hpos, fun heq => heq ▸ hheld⟩
  · rw [List.getElem?_eq_none (by omega)]
    exact iff_of_false (h.unheld pos hpos (by omega) id hid) (by simp)

/-- The loop of `findSensor` finds an id where it was entered. -/
theorem search (h : Entered K all ds s) (hid : id ∈ all) :
    ((List.range K.maxsensors).find? fun pos => s.Holds K pos id) =
      if id ∈ ds then some (ds.idxOf id) else none := by
  split
  · next hmem =>
    have hlt := List.idxOf_lt_length_of_mem hmem
    have hmax := hlt.trans_le h.length_le
    refine List.find?_range_eq_some.mpr ⟨?_, List.mem_range.mpr hmax, fun pos hpos => ?_⟩
    · rw [decide_eq_true_iff, h.holds_iff hid hmax, List.getElem?_eq_getElem hlt,
        List.getElem_idxOf hlt]
    · rw [Bool.not_eq_true', decide_eq_false_iff_not, h.holds_iff hid (hpos.trans hmax)]
      intro heq
      obtain ⟨hlen, rfl⟩ := List.getElem?_eq_some_iff.mp heq
      rw [h.nodup.idxOf_getElem] at hpos
      exact absurd hpos (Nat.lt_irrefl pos)
  · next hmem =>
    refine List.find?_eq_none.mpr fun pos hpos => ?_
    rw [decide_eq_true_iff, h.holds_iff hid (List.mem_range.mp hpos)]
    exact fun heq => hmem (List.mem_of_getElem? heq)

theorem findSensor_of_mem (h : Entered K all ds s) (hid : id ∈ all) (hmem : id ∈ ds) :
    findSensor K id s = ⟨ds.idxOf id, [], s⟩ := by
  rw [findSensor, h.search hid, if_pos hmem]

theorem findSensor_of_not_mem (h : Entered K all ds s) (hid : id ∈ all) (hmem : id ∉ ds) :
    findSensor K id s =
      let stores := (List.finRange 8).map fun i => (K.index ds.length i, id i)
      ⟨ds.length, stores, ⟨storeAll s.sensorValues stores, s.nextSensorPos + 1⟩⟩ := by
  have hnext := h.next
  have hle := h.length_le
  have hmax := K.lt_255
  have hsucc : (s.nextSensorPos + 1).toNat = ds.length + 1 := by
    rw [UInt8.toNat_add, hnext]
    exact Nat.mod_eq_of_lt (show ds.length + 1 < 256 by omega)
  have hwrap : ¬K.maxsensors < ds.length := by omega
  simp only [findSensor, h.search hid, if_neg hmem, hnext, if_neg hwrap, hsucc]
  rw [Int.natCast_add, Int.natCast_one, Int.add_sub_cancel]

/-- A call enters its id while the table has room. -/
theorem after (h : Entered K all ds s) (hid : id ∈ all)
    (hroom : (enter ds id).length ≤ K.maxsensors) :
    Entered K all (enter ds id) (findSensor K id s).after ∧
      (findSensor K id s).pos = (enter ds id).idxOf id ∧
        ∀ e ∈ (findSensor K id s).stores, e.1 < K.maxsensors * K.sensorsize := by
  by_cases hmem : id ∈ ds
  · rw [enter, if_pos hmem, h.findSensor_of_mem hid hmem]
    exact ⟨h, rfl, nofun⟩
  rw [enter, if_neg hmem, List.length_append, List.length_singleton] at hroom
  rw [enter, if_neg hmem, h.findSensor_of_not_mem hid hmem]
  have hnext := h.next
  have hmax := K.lt_255
  refine ⟨⟨?_, ?_, by simpa using hroom, ?_, ?_⟩, ?_, ?_⟩
  · exact List.nodup_append.mpr ⟨h.nodup, by simp, fun a ha b hb => by grind⟩
  · rw [UInt8.toNat_add, hnext, List.length_append]
    exact Nat.mod_eq_of_lt (show ds.length + 1 < 256 by omega)
  · intro pos hpos
    rw [holds_storeAll]
    split
    · next heq => simp [heq]
    · next hne =>
      have hlt : pos < ds.length := by
        rw [List.length_append, List.length_singleton] at hpos
        omega
      rw [List.getElem_append_left hlt]
      exact h.held pos hlt
  · intro pos hpos hge id' hid'
    rw [List.length_append, List.length_singleton] at hge
    rw [holds_storeAll, if_neg (by omega)]
    exact h.unheld pos hpos (by omega) id' hid'
  · rw [List.idxOf_append_of_notMem hmem]
    simp
  · intro e he
    obtain ⟨i, -, rfl⟩ := List.mem_map.mp he
    exact index_lt (by omega) i

theorem bounded (h : Entered K all ds s) (hid : id ∈ all)
    (hroom : (enter ds id).length ≤ K.maxsensors) :
    FindCall.Bounded K ⟨s, id, findSensor K id s⟩ := by
  obtain ⟨hafter, hpos, hinside⟩ := h.after hid hroom
  have hlt := List.idxOf_lt_length_of_mem (mem_enter ds id)
  refine ⟨by rw [hpos]; omega, by rw [hpos]; omega, hinside, ?_, fun pos hmax hholds => ?_⟩
  · rw [hpos, Int.toNat_natCast, hafter.holds_iff hid (hlt.trans_le hroom),
      List.getElem?_eq_getElem hlt, List.getElem_idxOf hlt]
  · rw [hafter.holds_iff hid hmax] at hholds
    obtain ⟨hlen, hget⟩ := List.getElem?_eq_some_iff.mp hholds
    rw [hpos, ← hafter.nodup.idxOf_getElem pos hlen, hget]

/-- While the table has room, every call is bounded, and returns the place of its id among all. -/
theorem calls_bounded (h : Entered K all ds s) (hids : ∀ id ∈ ids, id ∈ all)
    (hroom : (ids.foldl enter ds).length ≤ K.maxsensors) :
    ∀ c ∈ calls K ids s, c.Bounded K ∧ c.found.pos = (ids.foldl enter ds).idxOf c.id := by
  induction ids generalizing s ds with
  | nil => nofun
  | cons id ids ih =>
    have hid := hids id List.mem_cons_self
    rw [List.foldl_cons] at hroom ⊢
    have hpre := prefix_foldl_enter (enter ds id) ids
    have hhead := hpre.length_le.trans hroom
    obtain ⟨hafter, hpos, -⟩ := h.after hid hhead
    intro c hc
    rcases List.mem_cons.mp hc with rfl | hc
    · refine ⟨h.bounded hid hhead, hpos.trans ?_⟩
      obtain ⟨rest, hrest⟩ := hpre
      rw [← hrest, List.idxOf_append_of_mem (mem_enter ds id)]
    · exact ih hafter (fun id hid => hids id (List.mem_cons_of_mem _ hid)) hroom c hc

/-- When the table has no room for all ids, some call returns the position behind it. -/
theorem exists_call_behind (h : Entered K all ds s) (hids : ∀ id ∈ ids, id ∈ all)
    (hfull : K.maxsensors < (ids.foldl enter ds).length) :
    ∃ c ∈ calls K ids s, c.found.pos = K.maxsensors := by
  induction ids generalizing s ds with
  | nil => exact absurd h.length_le (Nat.not_le.mpr hfull)
  | cons id ids ih =>
    have hid := hids id List.mem_cons_self
    by_cases hroom : (enter ds id).length ≤ K.maxsensors
    · obtain ⟨c, hc, hpos⟩ := ih (h.after hid hroom).1
        (fun id hid => hids id (List.mem_cons_of_mem _ hid)) hfull
      exact ⟨c, List.mem_cons_of_mem _ hc, hpos⟩
    · refine ⟨_, List.mem_cons_self, ?_⟩
      have hle := h.length_le
      have hmem : id ∉ ds := by
        intro hmem
        rw [enter, if_pos hmem] at hroom
        exact hroom hle
      rw [enter, if_neg hmem, List.length_append, List.length_singleton] at hroom
      rw [h.findSensor_of_not_mem hid hmem]
      exact congrArg Int.ofNat (show ds.length = K.maxsensors by omega)

end Entered

/-- From a table without any of the ids, the calls use the table as a bounded map if and only if the
table has room for all of them. -/
theorem findSensor_bounded_iff (K : SensorConf) (s : Sensors) (ids : List SensorId)
    (hnext : s.nextSensorPos = 0)
    (hnew : ∀ pos < K.maxsensors, ∀ id ∈ ids, ¬s.Holds K pos id) :
    BoundedMap K (calls K ids s) ↔ ids.dedup.length ≤ K.maxsensors := by
  have hstart : Entered K ids [] s := ⟨.nil, by rw [hnext]; rfl, Nat.zero_le _, nofun,
    fun pos hpos _ => hnew pos hpos⟩
  rw [← length_foldl_enter]
  constructor
  · intro h
    by_contra hfull
    obtain ⟨c, hc, hpos⟩ := hstart.exists_call_behind (fun _ h => h) (Nat.not_le.mp hfull)
    have hlt := (h.bounded c hc).pos_lt
    omega
  · intro hroom
    have hcalls := hstart.calls_bounded (fun _ h => h) hroom
    refine ⟨fun c hc => (hcalls c hc).1, fun pre c mid c' post heq hid _ _ => ?_⟩
    have hc : c ∈ calls K ids s := by
      rw [heq]
      simp
    have hc' : c' ∈ calls K ids s := by
      rw [heq]
      simp
    rw [(hcalls c hc).2, (hcalls c' hc').2, hid]

/-- A table of two sensors. -/
def pair : SensorConf :=
  ⟨2, 8, Fin.val, by decide, by decide, Fin.isLt, Fin.val_injective⟩

/-- The id of a DS18B20. -/
def sensor (n : UInt8) : SensorId := fun i => if i.val = 0 then 0x28 else if i.val = 1 then n else 0

/-- The state before the first call. -/
def empty : Sensors := ⟨fun _ => 0, 0⟩

theorem not_holds_empty (pos : Nat) (n : UInt8) : ¬empty.Holds pair pos (sensor n) := by
  intro h
  have hfirst : (0 : UInt8) = 0x28 := h 0
  exact absurd hfirst (by decide)

theorem findSensor_bounded_two :
    BoundedMap pair (calls pair [sensor 1, sensor 2, sensor 1] empty) :=
  (findSensor_bounded_iff pair empty [sensor 1, sensor 2, sensor 1] rfl
    (by simp [not_holds_empty])).mpr (by decide)

/-- The third id goes behind a table of two. -/
theorem not_findSensor_bounded :
    let cs := calls pair [sensor 1, sensor 2, sensor 3] empty
    (∀ pos < 2, ∀ id ∈ [sensor 1, sensor 2, sensor 3], ¬empty.Holds pair pos id) ∧
      cs.map (fun c => c.found.pos) = [0, 1, 2] ∧
      (∃ c ∈ cs, ∃ e ∈ c.found.stores, pair.maxsensors * pair.sensorsize ≤ e.1) ∧
      ¬BoundedMap pair cs := by
  intro cs
  refine ⟨by simp [not_holds_empty], by decide, by decide, fun h => ?_⟩
  have hlt : ∀ c ∈ cs, c.found.pos < 2 := fun c hc => (h.bounded c hc).pos_lt
  revert hlt
  decide

end OneWire

end OpenPLC
