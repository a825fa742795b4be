import OpenPLC.OneWire.Devices

/-! Commands on a bus of devices.  While all devices listen, the master writes bytes that all of
them hear; `ow_command` with a ROM code lets the device with that code execute the command, and no
other one, and without a code it lets all devices execute it. -/

namespace OpenPLC

open Lib

namespace OneWire

namespace Device

variable (d : Device)

/-- The device after time slots with these levels. -/
def hears (levels : List Bool) : Device := levels.foldl step d

/-- The device pulls the line low in none of the time slots with these levels. -/
def Listens : Device → List Bool → Prop
  | _, [] => True
  | d, level :: levels => d.line = true ∧ Listens (d.step level) levels

variable {d} {levels : List Bool}

theorem listens_append {levels' : List Bool} :
    d.Listens (levels ++ levels') ↔ d.Listens levels ∧ (d.hears levels).Listens levels' := by
  induction levels generalizing d with
  | nil => simp [Listens, hears]
  | cons level levels ih =>
    rw [List.cons_append, Listens, Listens, ih, and_assoc]
    rfl

theorem hears_append (levels' : List Bool) :
    d.hears (levels ++ levels') = (d.hears levels).hears levels' := List.foldl_append ..

theorem step_idle (h : d.phase = .idle) (level : Bool) : d.step level = d := by
  rw [step, h]
  exact congrArg d.into h.symm

theorem hears_idle (h : d.phase = .idle) : d.hears levels = d := by
  induction levels with
  | nil => rfl
  | cons level levels ih => rwa [hears, List.foldl_cons, step_idle h]

theorem listens_idle (h : d.phase = .idle) : d.Listens levels := by
  induction levels with
  | nil => trivial
  | cons level levels ih => exact ⟨by simp [line, h], by rwa [step_idle h]⟩

/-- A device collects a ROM command. -/
theorem romCommand_hears {heard : List Bool} (h : d.phase = .romCommand heard)
    (hlen : heard.length + levels.length = 8) (hne : levels ≠ []) :
    d.Listens levels ∧ d.hears levels = d.into (d.romCommand (heard ++ levels)) := by
  induction levels generalizing d heard with
  | nil => exact absurd rfl hne
  | cons level levels ih =>
    have hline : d.line = true := by simp [line, h]
    have hstep : d.step level = d.into (d.romCommand (heard ++ [level])) := by simp [step, h]
    rw [List.length_cons] at hlen
    rw [Listens, hears, List.foldl_cons, hstep, ← hears]
    cases levels with
    | nil => exact ⟨⟨hline, trivial⟩, rfl⟩
    | cons level' levels =>
      have hmore : d.romCommand (heard ++ [level]) = .romCommand (heard ++ [level]) := by
        rw [romCommand, if_pos (by simp at hlen ⊢; omega)]
      obtain ⟨hlistens, hhears⟩ := ih (d := d.into (.romCommand (heard ++ [level])))
        (into_phase ..) (by simp at hlen ⊢; omega) (by simp)
      rw [hmore]
      refine ⟨⟨hline, hlistens⟩, hhears.trans ?_⟩
      rw [into_into, List.append_assoc, List.singleton_append]
      rfl

/-- A device collects a function command. -/
theorem function_hears {heard : List Bool} (h : d.phase = .function heard)
    (hlen : heard.length + levels.length = 8) (hne : levels ≠ []) :
    d.Listens levels ∧ d.hears levels = d.function (heard ++ levels) := by
  induction levels generalizing d heard with
  | nil => exact absurd rfl hne
  | cons level levels ih =>
    have hline : d.line = true := by simp [line, h]
    have hstep : d.step level = d.function (heard ++ [level]) := by simp [step, h]
    rw [List.length_cons] at hlen
    rw [Listens, hears, List.foldl_cons, hstep, ← hears]
    cases levels with
    | nil => exact ⟨⟨hline, trivial⟩, rfl⟩
    | cons level' levels =>
      have hmore : d.function (heard ++ [level]) = d.into (.function (heard ++ [level])) := by
        rw [function, if_pos (by simp at hlen ⊢; omega)]
      obtain ⟨hlistens, hhears⟩ := ih (d := d.into (.function (heard ++ [level])))
        (into_phase ..) (by simp at hlen ⊢; omega) (by simp)
      rw [hmore]
      refine ⟨⟨hline, hlistens⟩, hhears.trans ?_⟩
      rw [List.append_assoc, List.singleton_append]
      rfl

theorem bits_ne_nil (b : UInt8) : bits b ≠ [] := List.ne_nil_of_length_pos (by simp)

@[simp] theorem ofBits_bits (b : UInt8) : ofBits (bits b) = b := foldl_shiftIn_bits b 0

/-- A device after a reset and a ROM command. -/
theorem reset_hears (d : Device) (b : UInt8) :
    d.reset.Listens (bits b) ∧ d.reset.hears (bits b) = d.into
      (if b = 0xf0 then .searchBit d.romBits
      else if b = 0x55 then .matchRom d.romBits
      else if b = 0xcc then .function []
      else .idle) := by
  obtain ⟨hlistens, hhears⟩ := romCommand_hears (show d.reset.phase = .romCommand [] from rfl)
    (show 0 + (bits b).length = 8 by simp) (bits_ne_nil b)
  refine ⟨hlistens, hhears.trans ?_⟩
  simp [romCommand, reset]

/-- A device after a function command. -/
theorem into_function_hears (d : Device) (b : UInt8) :
    (d.into (.function [])).Listens (bits b) ∧ (d.into (.function [])).hears (bits b) =
      if b = 0x44 then d.convert.into .idle
      else d.into (if b = 0xbe then .sending (d.scratchpad.flatMap bits) else .idle) := by
  obtain ⟨hlistens, hhears⟩ := function_hears
    (show (d.into (.function [])).phase = .function [] from rfl)
    (show 0 + (bits b).length = 8 by simp) (bits_ne_nil b)
  refine ⟨hlistens, hhears.trans ?_⟩
  simp only [function, List.nil_append, length_bits, Nat.lt_irrefl, ↓reduceIte, ofBits_bits]
  split_ifs <;> rfl

theorem convert_hears (d : Device) :
    (d.into (.function [])).hears (bits 0x44) = d.convert.into .idle := by
  rw [(d.into_function_hears 0x44).2, if_pos rfl]

/-- A device that compares its ROM code listens, and goes on when it hears the code. -/
theorem matchRom_hears {rom : List Bool} (h : d.phase = .matchRom rom) (hrom : rom ≠ [])
    (hlen : levels.length = rom.length) :
    d.Listens levels ∧ d.hears levels = d.into (if levels = rom then .function [] else .idle) := by
  induction rom generalizing d levels with
  | nil => exact absurd rfl hrom
  | cons b rom ih =>
    obtain ⟨level, levels, rfl⟩ := List.exists_cons_of_length_eq_add_one hlen
    have hline : d.line = true := by simp [line, h]
    cases rom with
    | nil =>
      obtain rfl : levels = [] := by simpa using hlen
      exact ⟨⟨hline, trivial⟩, by simp [hears, step, h]⟩
    | cons b' rom =>
      have hstep : d.step level = d.into (if level = b then .matchRom (b' :: rom) else .idle) := by
        simp [step, h]
      rw [Listens, hears, List.foldl_cons, hstep, ← hears]
      by_cases hb : level = b
      · obtain ⟨hlistens, hhears⟩ := ih (d := d.into (.matchRom (b' :: rom))) (into_phase ..)
          (by simp) (by simpa using hlen)
        rw [if_pos hb]
        exact ⟨⟨hline, hlistens⟩, hhears.trans (by simp [hb])⟩
      · rw [if_neg hb]
        exact ⟨⟨hline, listens_idle (into_phase ..)⟩,
          (hears_idle (into_phase ..)).trans (by simp [hb])⟩

end Device

variable {ds : List Device}

/-! ### The master writes -/

theorem byteWrLoop_of_listens {n : Nat} {b : UInt8} (hn : n ≤ 8)
    (h : ∀ d ∈ ds, d.Listens ((bits b).take n)) :
    byteWrLoop wire n b ds =
      (((bits b).take n).foldl shiftIn b, ds.map (·.hears ((bits b).take n))) := by
  induction n generalizing b ds with
  | zero => simp [byteWrLoop, Device.hears]
  | succ n ih =>
    rw [take_succ_bits b (lowBit b) hn] at h ⊢
    have hlevel : (lowBit b && ds.all Device.line) = lowBit b := by
      rw [List.all_eq_true.mpr fun d hd => (h d hd).1, Bool.and_true]
    have hslot : wire.owBitIo (lowBit b) ds = (lowBit b, ds.map (Device.step · (lowBit b))) := by
      simp only [wire, hlevel]
    simp only [byteWrLoop, hslot]
    rw [ih (Nat.le_of_succ_le hn), List.map_map]
    · rfl
    · intro e he
      obtain ⟨d, hd, rfl⟩ := List.mem_map.mp he
      exact (h d hd).2

/-- A byte that all devices hear. -/
theorem owByteWr_of_listens {b : UInt8} (h : ∀ d ∈ ds, d.Listens (bits b)) :
    owByteWr wire b ds = (b, ds.map (·.hears (bits b))) := by
  have htake : (bits b).take 8 = bits b := List.take_of_length_le (by simp)
  rw [owByteWr, byteWrLoop_of_listens (Nat.le_refl 8) (by rwa [htake]), htake, foldl_shiftIn_bits]

theorem owBytesWr_of_listens {bs : List UInt8} (h : ∀ d ∈ ds, d.Listens (bs.flatMap bits)) :
    owBytesWr wire bs ds = ds.map (·.hears (bs.flatMap bits)) := by
  induction bs generalizing ds with
  | nil => simp [owBytesWr, Device.hears]
  | cons b bs ih =>
    simp only [List.flatMap_cons, Device.listens_append] at h
    rw [owBytesWr, List.foldl_cons, owByteWr_of_listens fun d hd => (h d hd).1, ← owBytesWr, ih,
      List.map_map]
    · exact List.map_congr_left fun d _ => (Device.hears_append _).symm
    · intro e he
      obtain ⟨d, hd, rfl⟩ := List.mem_map.mp he
      exact (h d hd).2

/-- After a reset all devices hear the ROM command. -/
theorem owByteWr_reset (b : UInt8) :
    (owByteWr wire b (wire.owReset ds).2).2 = ds.map fun d => d.reset.hears (bits b) := by
  have hreset : (wire.owReset ds).2 = ds.map Device.reset := rfl
  rw [hreset, owByteWr_of_listens, List.map_map]
  · simp only [Function.comp_def]
  · intro e he
    obtain ⟨d, -, rfl⟩ := List.mem_map.mp he
    exact (d.reset_hears b).1

theorem flatMap_bits_inj {bs cs : List UInt8} (h : bs.flatMap bits = cs.flatMap bits) :
    bs = cs := by
  induction bs generalizing cs with
  | nil =>
    cases cs with
    | nil => rfl
    | cons c cs => exact absurd (congrArg List.length h) (by simp; omega)
  | cons b bs ih =>
    cases cs with
    | nil => exact absurd (congrArg List.length h) (by simp)
    | cons c cs =>
      rw [List.flatMap_cons, List.flatMap_cons] at h
      obtain ⟨hb, hbs⟩ := List.append_inj h (by simp)
      rw [bits_injective hb, ih hbs]

/-- The device that was addressed executes the command, and the others wait for a reset. -/
theorem owCommand_some (command : UInt8) {id : List UInt8} (hid : id.length = 8) :
    owCommand wire command (some id) ds = ds.map fun d =>
      if d.rom = id then (d.into (.function [])).hears (bits command) else d.into .idle := by
  have hlen (d : Device) : (id.flatMap bits).length = d.romBits.length := by
    rw [length_flatMap_bits, hid, d.length_romBits]
  have hne (d : Device) : d.romBits ≠ [] := List.ne_nil_of_length_pos (by simp [d.length_romBits])
  have hmatch (d : Device) := Device.matchRom_hears (d.into_phase (.matchRom d.romBits)) (hne d)
    (hlen d)
  have hrom (d : Device) : id.flatMap bits = d.romBits ↔ d.rom = id :=
    ⟨fun h => (flatMap_bits_inj h).symm, fun h => by rw [← h]; rfl⟩
  have hselect : (owByteWr wire 0x55 (wire.owReset ds).2).2 =
      ds.map fun d => d.into (.matchRom d.romBits) := by
    rw [owByteWr_reset]
    exact List.map_congr_left fun d _ => (d.reset_hears 0x55).2
  have hbytes : owBytesWr wire id (ds.map fun d => d.into (.matchRom d.romBits)) =
      ds.map fun d => d.into (if d.rom = id then .function [] else .idle) := by
    rw [owBytesWr_of_listens, List.map_map]
    · refine List.map_congr_left fun d _ => (hmatch d).2.trans ?_
      simp only [hrom, Device.into_into]
    · intro e he
      obtain ⟨d, -, rfl⟩ := List.mem_map.mp he
      exact (hmatch d).1
  simp only [owCommand, hselect, hbytes]
  rw [owByteWr_of_listens, List.map_map]
  · refine List.map_congr_left fun d _ => ?_
    by_cases h : d.rom = id
    · simp [h]
    · simp only [Function.comp_apply, h, ↓reduceIte]
      exact Device.hears_idle (d.into_phase .idle)
  · intro e he
    obtain ⟨d, -, rfl⟩ := List.mem_map.mp he
    by_cases h : d.rom = id
    · rw [if_pos h]
      exact (d.into_function_hears command).1
    · exact Device.listens_idle (by simp [h])

/-- Without a ROM code all devices execute the command. -/
theorem owCommand_none (command : UInt8) :
    owCommand wire command none ds =
      ds.map fun d => (d.into (.function [])).hears (bits command) := by
  have hskip : (owByteWr wire 0xcc (wire.owReset ds).2).2 =
      ds.map fun d => d.into (.function []) := by
    rw [owByteWr_reset]
    exact List.map_congr_left fun d _ => (d.reset_hears 0xcc).2
  simp only [owCommand, hskip]
  rw [owByteWr_of_listens, List.map_map]
  · simp only [Function.comp_def]
  · intro e he
    obtain ⟨d, -, rfl⟩ := List.mem_map.mp he
    exact (d.into_function_hears command).1

/-! ### The master reads -/

/-- A device sends these bits, and the others send the same or wait. -/
structure Sends (data : List Bool) (ds : List Device) : Prop where
  sender : ∃ d ∈ ds, d.phase = .sending data
  others : ∀ d ∈ ds, d.phase = .sending data ∨ d.phase = .idle

theorem owBitIo_of_sends {b : Bool} {data : List Bool} (h : Sends (b :: data) ds) :
    ∃ ds', wire.owBitIo true ds = (b, ds') ∧ Sends data ds' ∧
      ds'.map Device.reset = ds.map Device.reset := by
  have hstep : ∀ d ∈ ds, ((d.step b).phase = .sending data ∨ (d.step b).phase = .idle) ∧
      (d.step b).reset = d.reset := by
    intro d hd
    rcases h.others d hd with hphase | hphase
    · rw [Device.step, hphase]
      exact ⟨.inl rfl, rfl⟩
    · rw [Device.step, hphase]
      exact ⟨.inr rfl, rfl⟩
  obtain ⟨sender, hsender, hphase⟩ := h.sender
  have hlevel : ds.all Device.line = b := by
    cases b
    · refine List.all_eq_false.mpr ⟨sender, hsender, ?_⟩
      simp [Device.line, hphase]
    · refine List.all_eq_true.mpr fun d hd => ?_
      rcases h.others d hd with hother | hother <;> simp [Device.line, hother]
  refine ⟨ds.map (Device.step · b), ?_, ⟨?_, fun e he => ?_⟩, ?_⟩
  · simp only [wire, hlevel, Bool.true_and]
  · refine ⟨_, List.mem_map_of_mem hsender, ?_⟩
    rw [Device.step, hphase]
    rfl
  · obtain ⟨d, hd, rfl⟩ := List.mem_map.mp he
    exact (hstep d hd).1
  · rw [List.map_map]
    exact List.map_congr_left fun d hd => (hstep d hd).2

theorem byteWrLoop_of_sends {n : Nat} {b : UInt8} {data : List Bool} (hn : n ≤ 8)
    (hones : (bits b).take n = List.replicate n true) (h : Sends data ds) (hlen : n ≤ data.length) :
    ∃ ds', byteWrLoop wire n b ds = ((data.take n).foldl shiftIn b, ds') ∧
      Sends (data.drop n) ds' ∧ ds'.map Device.reset = ds.map Device.reset := by
  induction n generalizing b data ds with
  | zero => exact ⟨ds, rfl, h, rfl⟩
  | succ n ih =>
    obtain ⟨c, data, rfl⟩ : ∃ c rest, data = c :: rest :=
      List.exists_cons_of_length_pos (by omega)
    rw [take_succ_bits b c hn, List.replicate_succ, List.cons.injEq] at hones
    obtain ⟨ds₁, hslot, hsends, hreset₁⟩ := owBitIo_of_sends h
    obtain ⟨ds', hloop, hrest, hreset⟩ := ih (Nat.le_of_succ_le hn) hones.2 hsends
      (Nat.le_of_succ_le_succ hlen)
    refine ⟨ds', ?_, hrest, hreset.trans hreset₁⟩
    simp only [byteWrLoop, hones.1, hslot, hloop, List.take_succ_cons, List.foldl_cons]

theorem owByteRd_of_sends {b : UInt8} {data : List Bool} (h : Sends (bits b ++ data) ds) :
    ∃ ds', owByteRd wire ds = (b, ds') ∧ Sends data ds' ∧
      ds'.map Device.reset = ds.map Device.reset := by
  obtain ⟨ds', hloop, hrest, hreset⟩ :=
    byteWrLoop_of_sends (b := 0xff) (Nat.le_refl 8) (by decide) h (by simp)
  rw [List.take_left' (length_bits b), foldl_shiftIn_bits] at hloop
  rw [List.drop_left' (length_bits b)] at hrest
  exact ⟨ds', hloop, hrest, hreset⟩

theorem owBytesRd_of_sends {bs : List UInt8} (h : Sends (bs.flatMap bits) ds) :
    ∃ ds', owBytesRd wire bs.length ds = (bs, ds') ∧
      ds'.map Device.reset = ds.map Device.reset := by
  induction bs generalizing ds with
  | nil => exact ⟨ds, rfl, rfl⟩
  | cons b bs ih =>
    obtain ⟨ds₁, hbyte, hrest, hreset₁⟩ := owByteRd_of_sends h
    obtain ⟨ds', hbytes, hreset⟩ := ih hrest
    refine ⟨ds', ?_, hreset.trans hreset₁⟩
    simp only [List.length_cons, owBytesRd, hbyte, hbytes]

/-- After a read command a device sends its scratchpad. -/
theorem owCommand_read {d : Device} (hd : d ∈ ds) (hroms : (ds.map Device.rom).Nodup) :
    Sends (d.scratchpad.flatMap bits) (owCommand wire 0xbe (some d.rom) ds) ∧
      (owCommand wire 0xbe (some d.rom) ds).map Device.reset = ds.map Device.reset := by
  have hread : owCommand wire 0xbe (some d.rom) ds = ds.map fun e =>
      e.into (if e.rom = d.rom then .sending (e.scratchpad.flatMap bits) else .idle) := by
    rw [owCommand_some 0xbe d.length_rom]
    refine List.map_congr_left fun e _ => ?_
    split
    · exact (e.into_function_hears 0xbe).2
    · rfl
  rw [hread]
  refine ⟨⟨⟨_, List.mem_map_of_mem hd, by simp⟩, fun e' he' => ?_⟩, ?_⟩
  · obtain ⟨e, he, rfl⟩ := List.mem_map.mp he'
    by_cases hrom : e.rom = d.rom
    · obtain rfl := List.inj_on_of_nodup_map hroms he hd hrom
      exact .inl (by simp)
    · exact .inr (by simp [hrom])
  · rw [List.map_map]
    rfl

end OneWire

end OpenPLC
