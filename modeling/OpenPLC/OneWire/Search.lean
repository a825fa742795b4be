import OpenPLC.Lib.Descent
import OpenPLC.OneWire.Command

/-! The search for the devices of a bus.  In a pass of `ow_rom_search` the devices that take part
send a bit of their ROM codes and then its complement; both are 1 on the bus unless a device sends a
0.  The master answers with a bit, and the devices that have another one drop out.  So a pass is a
descent among the ROM codes, and `search_sensors` finds all devices, one after the other. -/

namespace OpenPLC

open Lib Lib.Descent

namespace OneWire

namespace Device

variable {d : Device}

/-- What is left of the ROM code of a device that takes part in a search. -/
def word (d : Device) : Option (List Bool) :=
  match d.phase with
  | .searchBit rom => some rom
  | _ => none

/-- The device takes part in a search, or it has dropped out. -/
def Searches (d : Device) : Prop := (∃ rom, d.phase = .searchBit rom) ∨ d.phase = .idle

/-- The device after a bit of the search, its complement, and the answer. -/
def answered (d : Device) (bit compl b : Bool) : Device := ((d.step bit).step compl).step b

theorem Searches.cases (h : d.Searches) :
    (∃ b rom, d.phase = .searchBit (b :: rom)) ∨ d.phase = .searchBit [] ∨ d.phase = .idle := by
  rcases h with ⟨rom, h⟩ | h
  · cases rom with
    | nil => exact .inr (.inl h)
    | cons b rom => exact .inl ⟨b, rom, h⟩
  · exact .inr (.inr h)

theorem Searches.line (h : d.Searches) : d.line = (d.word.bind (rest? false)).isNone := by
  rcases h.cases with ⟨b, rom, h⟩ | h | h
  · cases b <;> simp [Device.line, word, rest?, h]
  · simp [Device.line, word, rest?, h]
  · simp [Device.line, word, h]

theorem Searches.line_step (h : d.Searches) (bit : Bool) :
    (d.step bit).line = (d.word.bind (rest? true)).isNone := by
  rcases h.cases with ⟨b, rom, h⟩ | h | h
  · cases b <;> simp [Device.line, step, word, rest?, h]
  · simp [Device.line, step, word, rest?, h]
  · simp [Device.line, step, word, h]

theorem Searches.line_step_step (h : d.Searches) (bit compl : Bool) :
    ((d.step bit).step compl).line = true := by
  rcases h.cases with ⟨b, rom, h⟩ | h | h <;> simp [Device.line, step, h]

theorem Searches.word_answered (h : d.Searches) (bit compl b : Bool) :
    (d.answered bit compl b).word = d.word.bind (rest? b) := by
  rcases h.cases with ⟨c, rom, h⟩ | h | h
  · by_cases hb : b = c
    · simp [Device.answered, step, word, rest?, h, hb]
    · simp [Device.answered, step, word, rest?, h, hb, Ne.symm hb]
  · simp [Device.answered, step, word, rest?, h]
  · simp [Device.answered, step, word, h]

theorem Searches.answered (h : d.Searches) (bit compl b : Bool) :
    (d.answered bit compl b).Searches := by
  rcases h.cases with ⟨c, rom, h⟩ | h | h
  · by_cases hb : b = c
    · exact .inl ⟨rom, by simp [Device.answered, step, h, hb]⟩
    · exact .inr (by simp [Device.answered, step, h, hb])
  · exact .inr (by simp [Device.answered, step, h])
  · exact .inr (by simp [Device.answered, step, h])

theorem Searches.reset_answered (h : d.Searches) (bit compl b : Bool) :
    (d.answered bit compl b).reset = d.reset := by
  rcases h.cases with ⟨c, rom, h⟩ | h | h <;> simp [Device.answered, step, reset, h]

end Device

/-- The words that a pass still has to tell apart. -/
def words (ds : List Device) : List (List Bool) := ds.filterMap Device.word

variable {ds : List Device}

theorem branch_words (b : Bool) :
    branch b (words ds) = ds.filterMap fun d => d.word.bind (rest? b) := List.filterMap_filterMap

theorem words_answered (h : ∀ d ∈ ds, d.Searches) (bit compl b : Bool) :
    words (ds.map (·.answered bit compl b)) = branch b (words ds) := by
  rw [branch_words, words, List.filterMap_map]
  exact List.filterMap_congr fun d hd => (h d hd).word_answered bit compl b

/-- The line is high when no word goes on with `b`. -/
theorem all_eq_of_isNone {level : Device → Bool} {b : Bool}
    (h : ∀ d ∈ ds, level d = (d.word.bind (rest? b)).isNone) :
    ds.all level = decide (branch b (words ds) = []) := by
  rw [branch_words, Bool.eq_iff_iff, decide_eq_true_iff, List.filterMap_eq_nil_iff,
    List.all_eq_true]
  exact forall₂_congr fun d hd => by rw [h d hd, Option.isNone_iff_eq_none]

/-- The three time slots of a bit of the search. -/
theorem owBitIo_searches (h : ∀ d ∈ ds, d.Searches) :
    let bit := decide (branch false (words ds) = [])
    let compl := decide (branch true (words ds) = [])
    ∃ ds₁ ds₂, wire.owBitIo true ds = (bit, ds₁) ∧ wire.owBitIo true ds₁ = (compl, ds₂) ∧
      ∀ b, wire.owBitIo b ds₂ = (b, ds.map (·.answered bit compl b)) := by
  intro bit compl
  have hbit : ds.all Device.line = bit :=
    all_eq_of_isNone fun d hd => (h d hd).line
  have hcompl : (ds.map (·.step bit)).all Device.line = compl := by
    rw [List.all_map]
    exact all_eq_of_isNone fun d hd => (h d hd).line_step bit
  refine ⟨ds.map (·.step bit), ds.map fun d => (d.step bit).step compl, ?_, ?_, fun b => ?_⟩
  · simp only [wire, Bool.true_and, hbit]
  · simp only [wire, Bool.true_and, hcompl, List.map_map]
    rfl
  · have hhigh : (b && (ds.map fun d => (d.step bit).step compl).all Device.line) = b := by
      rw [List.all_map, List.all_eq_true.mpr, Bool.and_true]
      exact fun d hd => (h d hd).line_step_step bit compl
    simp only [wire, hhigh, List.map_map]
    rfl

/-! ### A pass -/

/-- Some devices take part in a pass, and `n` bits are left. -/
structure Searching (n : Nat) (ds : List Device) : Prop where
  searches : ∀ d ∈ ds, d.Searches
  words_ne_nil : words ds ≠ []
  length : ∀ w ∈ words ds, w.length = n

/-- The master chooses as a descent does. -/
theorem searchChoice_eq (diff : UInt8) {i id : UInt8} (next : UInt8) {n : Nat} {word : List Bool}
    (hi : i.toNat = n + 1)
    (hword : word.head? = some (lowBit id)) (h : Searching (n + 1) ds) :
    ∃ next' : UInt8, searchChoice diff i id next (decide (branch false (words ds) = []))
        (decide (branch true (words ds) = [])) =
          some ((choose diff.toNat (n + 1) word (words ds) next.toNat).1, next') ∧
      next'.toNat = (choose diff.toNat (n + 1) word (words ds) next.toNat).2 := by
  have hbranch := branch_choose diff.toNat word next.toNat h.length
    h.words_ne_nil
  have hdiff : diff > i ↔ n + 1 < diff.toNat := by rw [← hi]; exact UInt8.lt_iff_toNat_lt
  have hne : diff ≠ i ↔ diff.toNat ≠ n + 1 := by rw [← hi, Ne, Ne, UInt8.toNat_inj]
  simp only [choose, searchChoice, hword, Option.some_inj, hdiff, hne] at hbranch ⊢
  generalize lowBit id = low at hbranch ⊢
  by_cases hfalse : branch false (words ds) = []
  · have htrue : branch true (words ds) ≠ [] := by simpa [hfalse] using hbranch
    exact ⟨next, by simp [hfalse, htrue], by simp [hfalse]⟩
  · by_cases htrue : branch true (words ds) = []
    · exact ⟨next, by simp [hfalse, htrue], by simp [hfalse, htrue]⟩
    · by_cases hstop : n + 1 < diff.toNat ∨ low = true ∧ diff.toNat ≠ n + 1
      · exact ⟨i, by simp [hfalse, htrue, hstop], by simp [hfalse, htrue, hstop, hi]⟩
      · exact ⟨next, by simp [hfalse, htrue, hstop], by simp [hfalse, htrue, hstop]⟩

theorem Searching.answered {n : Nat} (h : Searching (n + 1) ds) (stop last : Nat) (word : List Bool)
    (bit compl : Bool) :
    Searching n (ds.map (·.answered bit compl (choose stop (n + 1) word (words ds) last).1)) := by
  constructor
  · intro e he
    obtain ⟨d, hd, rfl⟩ := List.mem_map.mp he
    exact (h.searches d hd).answered ..
  · rw [words_answered h.searches]
    exact branch_choose _ _ _ h.length h.words_ne_nil
  · rw [words_answered h.searches]
    exact length_branch h.length _

theorem map_reset_answered (h : ∀ d ∈ ds, d.Searches) (bit compl b : Bool) :
    (ds.map (·.answered bit compl b)).map Device.reset = ds.map Device.reset := by
  rw [List.map_map]
  exact List.map_congr_left fun d hd => (h d hd).reset_answered bit compl b

/-- The bits of a byte are levels of a descent. -/
theorem searchByte_eq (diff : UInt8) {i : UInt8} (next id : UInt8) {n m : Nat} (rest : List Bool)
    (hn : n ≤ 8) (hi : i.toNat = n + m) (h : Searching (n + m) ds) :
    ∃ next' found ds', searchByte wire diff n i next id ds =
        (some next', found.foldl shiftIn id, ds') ∧
      found.length = n ∧ Searching m ds' ∧ ds'.map Device.reset = ds.map Device.reset ∧
      descend diff.toNat (n + m) ((bits id).take n ++ rest) (words ds) next.toNat =
        let (last, word) := descend diff.toNat m rest (words ds') next'.toNat
        (last, found ++ word) := by
  induction n generalizing i next id ds with
  | zero =>
    rw [Nat.zero_add] at h
    exact ⟨next, [], ds, rfl, rfl, h, rfl, by simp⟩
  | succ n ih =>
    have hsucc : n + 1 + m = n + m + 1 := by omega
    rw [hsucc] at hi h
    have hword (b : Bool) : (bits id).take (n + 1) ++ rest =
        lowBit id :: ((bits (shiftIn id b)).take n ++ rest) := by
      rw [take_succ_bits id b hn, List.cons_append]
    obtain ⟨ds₁, ds₂, hbit, hcompl, hanswer⟩ := owBitIo_searches h.searches
    have hhead : ((bits id).take (n + 1) ++ rest).head? = some (lowBit id) := by
      rw [hword true]
      rfl
    obtain ⟨next₁, hchoice, hnext₁⟩ := searchChoice_eq diff next hi hhead h
    generalize hc : choose diff.toNat (n + m + 1) ((bits id).take (n + 1) ++ rest) (words ds)
      next.toNat = c at hchoice hnext₁
    have hafter := hc ▸ h.answered diff.toNat next.toNat
      ((bits id).take (n + 1) ++ rest) (decide (branch false (words ds) = []))
      (decide (branch true (words ds) = []))
    have hi' : (i - 1).toNat = n + m := by
      rw [UInt8.toNat_sub_of_le _ _ (UInt8.le_iff_toNat_le.mpr (by rw [hi]; simp)), hi]
      simp
    obtain ⟨next', found, ds', hrun, hlen, hpass, hreset, hdescend⟩ :=
      ih next₁ (shiftIn id c.1) (Nat.le_of_succ_le hn) hi' hafter
    refine ⟨next', c.1 :: found, ds', ?_, by simp [hlen], hpass,
      hreset.trans (map_reset_answered h.searches _ _ _), ?_⟩
    · simp only [searchByte, hbit, hcompl, hchoice, hanswer, hrun, List.foldl_cons]
    · rw [words_answered h.searches, hnext₁] at hdescend
      rw [hsucc, descend, hc]
      simp only [hword c.1, List.tail_cons, hdescend]
      rfl

/-- The bytes of the ROM code are a descent. -/
theorem searchBytes_eq (diff : UInt8) {i : UInt8} (next : UInt8) {id : List UInt8}
    (hi : i.toNat = 8 * id.length) (h : Searching (8 * id.length) ds) :
    ∃ next' id' ds', searchBytes wire diff id i next ds = (next', id', ds') ∧
      id'.length = id.length ∧ ds'.map Device.reset = ds.map Device.reset ∧
      descend diff.toNat (8 * id.length) (id.flatMap bits) (words ds) next.toNat =
        (next'.toNat, id'.flatMap bits) := by
  induction id generalizing i next ds with
  | nil => exact ⟨next, [], ds, rfl, rfl, rfl, rfl⟩
  | cons byte id ih =>
    have hlen : 8 * (byte :: id).length = 8 + 8 * id.length := by simp; omega
    rw [hlen] at hi h ⊢
    obtain ⟨next₁, found, ds₁, hbyte, hfound, hpass, hreset₁, hdescend₁⟩ :=
      searchByte_eq diff next byte (id.flatMap bits) (Nat.le_refl 8) hi h
    have hi' : (i - 8).toNat = 8 * id.length := by
      rw [UInt8.toNat_sub_of_le _ _ (UInt8.le_iff_toNat_le.mpr (by rw [hi]; simp)), hi]
      simp
    obtain ⟨next', id', ds', hrun, hid', hreset, hdescend⟩ := ih next₁ hi' hpass
    refine ⟨next', found.foldl shiftIn byte :: id', ds', ?_, by simp [hid'],
      hreset.trans hreset₁, ?_⟩
    · simp only [searchBytes, hbyte, hrun]
    · rw [List.take_of_length_le (by simp)] at hdescend₁
      rw [List.flatMap_cons, hdescend₁, List.flatMap_cons, bits_foldl_shiftIn byte hfound]
      simp only [hdescend]

/-- A pass of `ow_rom_search` is a descent among the ROM codes. -/
theorem owRomSearch_eq (diff : UInt8) {id : List UInt8} (hid : id.length = 8) (hds : ds ≠ []) :
    ∃ next' id' ds', owRomSearch wire diff id ds = (next', id', ds') ∧ id'.length = 8 ∧
      ds'.map Device.reset = ds.map Device.reset ∧
      descend diff.toNat 64 (id.flatMap bits) (ds.map Device.romBits) 0 =
        (next'.toNat, id'.flatMap bits) := by
  have hreset : (wire.owReset ds).1 = false := by simpa [wire] using hds
  have hcommand : (owByteWr wire 0xf0 (wire.owReset ds).2).2 =
      ds.map fun d => d.into (.searchBit d.romBits) := by
    rw [owByteWr_reset]
    exact List.map_congr_left fun d _ => (d.reset_hears 0xf0).2
  have hwords : words (ds.map fun d => d.into (.searchBit d.romBits)) = ds.map Device.romBits := by
    rw [words, List.filterMap_map, ← List.filterMap_eq_map]
    rfl
  have hstart : Searching (8 * id.length) (ds.map fun d => d.into (.searchBit d.romBits)) := by
    refine ⟨fun e he => ?_, ?_, fun w hw => ?_⟩
    · obtain ⟨d, -, rfl⟩ := List.mem_map.mp he
      exact .inl ⟨d.romBits, rfl⟩
    · simpa [hwords] using hds
    · rw [hwords] at hw
      obtain ⟨d, -, rfl⟩ := List.mem_map.mp hw
      rw [d.length_romBits, hid]
  obtain ⟨next', id', ds', hrun, hid', hmap, hdescend⟩ :=
    searchBytes_eq diff (i := 64) owLastDevice (by rw [hid]; rfl) hstart
  rw [hwords, hid] at hdescend
  refine ⟨next', id', ds', ?_, hid'.trans hid, ?_, hdescend⟩
  · simp only [owRomSearch, hreset, hcommand, hrun, Bool.false_eq_true, ↓reduceIte]
  · rw [hmap, List.map_map]
    rfl

/-! ### The passes -/

theorem map_romBits_of_reset {ds' : List Device} (h : ds'.map Device.reset = ds.map Device.reset) :
    ds'.map Device.romBits = ds.map Device.romBits := by
  have hrom := congrArg (List.map Device.romBits) h
  rwa [List.map_map, List.map_map] at hrom

/-- The loop of `search_sensors` walks through the ROM codes, with `left` more to be found. -/
theorem searchLoop_eq {maxSensors : Nat} (hmax : maxSensors ≤ 255) (left : Nat) (nSensors : UInt8)
    (hleft : nSensors.toNat + left = maxSensors) {diff : UInt8} {id : List UInt8} (scan : Mem)
    (hdiff : diff ≠ owLastDevice) (hid : id.length = 8) (hds : ds ≠ []) :
    ∃ (ids : List (List UInt8)) (n : UInt8) (ds' : List Device),
      searchLoop wire maxSensors left nSensors diff id scan ds =
        (n, scan.write (nSensors.toNat * 8) ids.flatten, ds') ∧
      n.toNat = nSensors.toNat + ids.length ∧
      (∀ id ∈ ids, id.length = 8) ∧ ds'.map Device.reset = ds.map Device.reset ∧
      ids.map (·.flatMap bits) =
        walk 64 (ds.map Device.romBits) left diff.toNat (id.flatMap bits) := by
  induction left generalizing nSensors diff id scan ds with
  | zero => exact ⟨[], nSensors, ds, by simp [searchLoop], rfl, by simp, rfl, rfl⟩
  | succ left ih =>
    have hlt : nSensors.toNat < maxSensors := by omega
    have hnext : (nSensors + 1).toNat = nSensors.toNat + 1 := by
      rw [UInt8.toNat_add]
      exact Nat.mod_eq_of_lt (show nSensors.toNat + 1 < 256 by omega)
    obtain ⟨next', id', ds₁, hrun, hid', hreset₁, hdescend⟩ := owRomSearch_eq diff hid hds
    have hle : next'.toNat ≤ 64 := by
      have := descend_le diff.toNat (id.flatMap bits) (ds.map Device.romBits)
        (Nat.le_refl 64) (Nat.zero_le 64)
      rwa [hdescend] at this
    have hfound : ¬(next' = owSearchFirst ∨ next' = owDataErr) := by
      rintro (rfl | rfl) <;> exact absurd hle (by decide)
    have hds₁ : ds₁ ≠ [] := by
      rintro rfl
      exact hds (List.map_eq_nil_iff.mp hreset₁.symm)
    simp only [searchLoop, if_pos (show _ ∧ _ from ⟨hdiff, hlt⟩), find_sensor, hrun, if_neg hfound,
      walk, hdescend]
    by_cases hlast : next' = owLastDevice
    · refine ⟨[id'], nSensors + 1, ds₁, ?_, hnext, by simp [hid'], hreset₁, by simp [hlast]⟩
      cases left <;> simp [searchLoop, hlast]
    · obtain ⟨ids, n, ds', hloop, hn, hids, hreset, hwalk⟩ := ih (nSensors + 1)
        (by omega) (scan.write (nSensors.toNat * 8) id') hlast hid' hds₁
      have hne : next'.toNat ≠ 0 := fun h => hlast (UInt8.toNat_inj.mp h)
      refine ⟨id' :: ids, n, ds', ?_, ?_, by simpa [hid'] using hids, hreset.trans hreset₁, ?_⟩
      · rw [hloop, List.flatten_cons, ← Mem.write_write_append, hid', hnext, Nat.succ_mul]
      · rw [hn, hnext, List.length_cons]
        omega
      · rw [List.map_cons, hwalk, map_romBits_of_reset hreset₁, if_neg hne]

/-- The ROM codes of the devices in the order of the search: of two codes the one with a 1 in the
first bit in which they differ comes first. -/
structure InOrder (ids : List (List UInt8)) (ds : List Device) : Prop where
  perm : ids.Perm (ds.map Device.rom).dedup
  sorted : (ids.map (·.flatMap bits)).Pairwise (List.Lex (· > ·))

/-- `search_sensors` finds each device once, in order, as long as it may find more, whatever `id`
and `sensorScan` held before. -/
theorem searchSensors_finds {maxSensors : Nat} (hmax : maxSensors ≤ 255) {id : List UInt8}
    (hid : id.length = 8) (scan : Mem) (ds : List Device) :
    ∃ ids n ds', InOrder ids ds ∧ searchSensors wire maxSensors id scan ds =
        (n, scan.write 0 (ids.take maxSensors).flatten, ds') ∧
      n.toNat = min maxSensors ids.length ∧ ds'.map Device.reset = ds.map Device.reset := by
  have hlen : ∀ w ∈ ds.map Device.romBits, w.length = 64 := by
    intro w hw
    obtain ⟨d, -, rfl⟩ := List.mem_map.mp hw
    exact d.length_romBits
  have hperm : (ordered 64 (ds.map Device.romBits)).Perm
      ((ds.map Device.rom).dedup.map (·.flatMap bits)) := by
    rw [← List.dedup_map_of_injective fun _ _ => flatMap_bits_inj, List.map_map]
    exact ordered_perm hlen
  obtain ⟨ids, horder, hids⟩ : ∃ ids : List (List UInt8),
      ordered 64 (ds.map Device.romBits) = ids.map (·.flatMap bits) ∧
        ids.Perm (ds.map Device.rom).dedup := by
    have hcomp := congrFun₂ (List.eq_map_comp_perm fun r : List UInt8 => r.flatMap bits)
      (ordered 64 (ds.map Device.romBits)) (ds.map Device.rom).dedup
    exact hcomp.mpr hperm
  have hsorted : InOrder ids ds := ⟨hids, horder ▸ ordered_pairwise 64 _⟩
  by_cases hds : ds = []
  · obtain rfl : ids = [] := by simpa [hds] using hids
    refine ⟨[], 0, [], hsorted, ?_, by simp, by rw [hds]⟩
    cases maxSensors <;> simp [searchSensors, searchLoop, find_sensor, owRomSearch, wire, hds]
  · obtain ⟨found, n, ds', hloop, hn, -, hreset, hwalk⟩ := searchLoop_eq hmax maxSensors 0
      (Nat.zero_add _) scan (show owSearchFirst ≠ owLastDevice by decide) hid hds
    obtain rfl : found = ids.take maxSensors := by
      rw [walk_eq_take hlen (by simpa using hds) (by decide), horder, ← List.map_take] at hwalk
      exact (List.map_injective_iff.mpr fun _ _ => flatMap_bits_inj) hwalk
    refine ⟨ids, n, ds', hsorted, hloop, ?_, hreset⟩
    rw [hn, List.length_take]
    exact Nat.zero_add _

theorem InOrder.length_rom {ids : List (List UInt8)} (h : InOrder ids ds) :
    ∀ id ∈ ids, id.length = 8 := by
  intro id hid
  obtain ⟨d, -, rfl⟩ := List.mem_map.mp (List.mem_dedup.mp (h.perm.mem_iff.mp hid))
  exact d.length_rom

/-- `search_sensors` for at most 255 sensors leaves in `sensorScan` the ROM codes of the devices of
the bus, each once, in order, up to the number that it may find, and nothing behind them; it changes
no device. -/
theorem searchSensors_scan {maxSensors : Nat} (hmax : maxSensors ≤ 255) {id : List UInt8}
    (hid : id.length = 8) (scan : Mem) (ds : List Device) :
    ∃ ids, InOrder ids ds ∧
      let (nSensors, scan', ds') := searchSensors wire maxSensors id scan ds
      nSensors.toNat = min maxSensors ids.length ∧
      (∀ i < nSensors.toNat, ids[i]? = some (scan'.read (i * 8) 8)) ∧
      (∀ a, nSensors.toNat * 8 ≤ a → scan' a = scan a) ∧
      ds'.map Device.reset = ds.map Device.reset := by
  obtain ⟨ids, n, ds', hids, hsearch, hn, hreset⟩ := searchSensors_finds hmax hid scan ds
  have hcount : (ids.take maxSensors).length = min maxSensors ids.length := List.length_take
  have htake : ∀ id ∈ ids.take maxSensors, id.length = 8 := fun id hmem =>
    hids.length_rom id (List.mem_of_mem_take hmem)
  have hflatten : (ids.take maxSensors).flatten.length = min maxSensors ids.length * 8 := by
    rw [List.length_flatten, List.map_congr_left htake, List.map_const', List.sum_replicate_nat,
      hcount]
  refine ⟨ids, hids, ?_⟩
  rw [hsearch]
  dsimp only
  rw [hn]
  refine ⟨rfl, fun i hi => ?_, fun a ha => ?_, hreset⟩
  · have hread := Mem.read_write_flatten htake scan 0 (hi.trans_eq hcount.symm)
    rw [Nat.zero_add] at hread
    rw [hread, List.getElem_take]
    exact List.getElem?_eq_getElem _
  · exact Mem.write_apply_of_ge (by omega)

/-- A thermometer that waits for a reset. -/
def thermometer : Device where
  rom := [0x28, 0xff, 0x4b, 0x46, 0x7f, 0x01, 0x0f, 0x0d]
  scratchpad := List.replicate 9 0
  measured := List.replicate 9 0
  phase := .idle
  length_rom := rfl
  length_scratchpad := rfl
  length_measured := rfl

/-- A button with the id in the comment of `findSystemID`. -/
def button : Device :=
  { thermometer with rom := [0x01, 0x51, 0x99, 0x36, 0x14, 0, 0, 0xf5], length_rom := rfl }

/-- A bus with both. -/
def twoDevices : List Device := [thermometer, button]

theorem searchSensors_scan_two :
    ∃ ids, InOrder ids twoDevices ∧
      let (nSensors, scan', ds') :=
        searchSensors wire 3 (List.replicate 8 0) (fun _ => 0) twoDevices
      nSensors.toNat = min 3 ids.length ∧
      (∀ i < nSensors.toNat, ids[i]? = some (scan'.read (i * 8) 8)) ∧
      (∀ a, nSensors.toNat * 8 ≤ a → scan' a = 0) ∧
      ds'.map Device.reset = twoDevices.map Device.reset :=
  searchSensors_scan (show 3 ≤ 255 by decide) List.length_replicate (fun _ => 0) twoDevices

end OneWire

end OpenPLC
