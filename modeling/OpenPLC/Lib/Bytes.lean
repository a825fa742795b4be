import Mathlib.Data.List.Basic
import Mathlib.Data.List.TakeWhile

/-! Byte-addressed memory, as a function from addresses to bytes, and the strings and words that a C
program keeps in it.  A write stores a list of bytes from an address on; the lemmas say what a read
sees after a write that covers it, misses it, or ends before it. -/

namespace Lib

/-- Memory: the byte at each address. -/
abbrev Mem := Nat → UInt8

namespace Mem

/-- The `n` bytes from address `a` on. -/
def read (m : Mem) (a n : Nat) : List UInt8 := (List.range n).map fun i => m (a + i)

/-- Store `bs` from address `a` on. -/
def write (m : Mem) (a : Nat) (bs : List UInt8) : Mem := fun x =>
  if a ≤ x ∧ x < a + bs.length then bs.getD (x - a) 0 else m x

/-- The memory that holds `bs` from address 0 on, and zeros after it. -/
def ofList (bs : List UInt8) : Mem := fun x => bs.getD x 0

/-- The little-endian 16-bit word at address `a`. -/
def get16 (m : Mem) (a : Nat) : UInt16 := (m a).toUInt16 ||| ((m (a + 1)).toUInt16 <<< 8)

@[simp] theorem length_read (m : Mem) (a n : Nat) : (m.read a n).length = n := by
  simp [read]

@[simp] theorem write_nil (m : Mem) (a : Nat) : m.write a [] = m := by
  funext x
  exact if_neg (by simp)

theorem write_apply_of_lt {m : Mem} {a x : Nat} {bs : List UInt8} (h : x < a) :
    m.write a bs x = m x := by
  simp [write, show ¬a ≤ x by omega]

theorem write_apply_of_ge {m : Mem} {a x : Nat} {bs : List UInt8} (h : a + bs.length ≤ x) :
    m.write a bs x = m x := by
  simp [write, show ¬x < a + bs.length by omega]

theorem write_apply_add {m : Mem} {a i : Nat} {bs : List UInt8} (h : i < bs.length) :
    m.write a bs (a + i) = bs[i] := by
  simp [write, h]

@[simp] theorem read_write_self (m : Mem) (a : Nat) (bs : List UInt8) :
    (m.write a bs).read a bs.length = bs := by
  apply List.ext_getElem
  · simp
  · intro i _ h2
    simp only [read, List.getElem_map, List.getElem_range]
    exact write_apply_add h2

theorem read_write_of_length (m : Mem) (a : Nat) {bs : List UInt8} {n : Nat} (h : bs.length = n) :
    (m.write a bs).read a n = bs := by
  rw [← h]
  exact read_write_self m a bs

theorem read_write_of_ge {m : Mem} {a b n : Nat} {bs : List UInt8} (h : a + bs.length ≤ b) :
    (m.write a bs).read b n = m.read b n := by
  simp only [read]
  exact List.map_congr_left fun i _ => write_apply_of_ge (by omega)

theorem read_append (m : Mem) (a n k : Nat) :
    m.read a n ++ m.read (a + n) k = m.read a (n + k) := by
  simp only [read, List.range_add, List.map_append, List.map_map]
  congr 1
  exact List.map_congr_left fun i _ => by simp [Nat.add_assoc]

theorem read_succ (m : Mem) (a n : Nat) : m.read a (n + 1) = m.read a n ++ [m (a + n)] := by
  simp [read, List.range_succ]

theorem read_cons (m : Mem) (a n : Nat) : m.read a (n + 1) = m a :: m.read (a + 1) n := by
  rw [Nat.add_comm n 1, ← read_append]
  rfl

theorem read_eq_append {m : Mem} {a n : Nat} {bs cs : List UInt8} (h : m.read a n = bs ++ cs) :
    m.read a bs.length = bs ∧ m.read (a + bs.length) cs.length = cs := by
  have hn : n = bs.length + cs.length := by
    rw [← List.length_append, ← h, length_read]
  rw [hn, ← read_append] at h
  exact List.append_inj h (by simp)

theorem read_prefix (m : Mem) (a : Nat) {n k : Nat} (h : n ≤ k) : m.read a n <+: m.read a k := by
  obtain ⟨j, rfl⟩ := Nat.exists_eq_add_of_le h
  exact ⟨m.read (a + n) j, read_append m a n j⟩

theorem drop_read (m : Mem) (a k n : Nat) : (m.read a (k + n)).drop k = m.read (a + k) n := by
  rw [← read_append, List.drop_left' (by simp)]

theorem take_read (m : Mem) (a : Nat) {n k : Nat} (h : n ≤ k) :
    (m.read a k).take n = m.read a n := by
  obtain ⟨j, rfl⟩ := Nat.exists_eq_add_of_le h
  rw [← read_append, List.take_left' (by simp)]

theorem getElem?_read {m : Mem} {a i n : Nat} (h : i < n) :
    (m.read a n)[i]? = some (m (a + i)) := by
  simp [read, h]

theorem of_getElem?_read {m : Mem} {a i n : Nat} {v : UInt8} (h : (m.read a n)[i]? = some v) :
    m (a + i) = v := by
  obtain ⟨hlt, -⟩ := List.getElem?_eq_some_iff.mp h
  rw [length_read] at hlt
  rwa [getElem?_read hlt, Option.some_inj] at h

theorem ofList_read (m : Mem) {n x : Nat} (h : x < n) : ofList (m.read 0 n) x = m x := by
  have hget := getElem?_read (m := m) (a := 0) h
  rw [ofList, List.getD_eq_getElem?_getD, hget, Option.getD_some, Nat.zero_add]

theorem write_append (m : Mem) (a : Nat) (bs cs : List UInt8) :
    m.write a (bs ++ cs) = (m.write (a + bs.length) cs).write a bs := by
  funext x
  simp only [write, List.length_append, List.getD_eq_getElem?_getD]
  by_cases hbs : a ≤ x ∧ x < a + bs.length
  · rw [if_pos (by omega), if_pos hbs, List.getElem?_append_left (by omega)]
  · rw [if_neg hbs]
    by_cases hcs : a + bs.length ≤ x ∧ x < a + bs.length + cs.length
    · rw [if_pos (by omega), if_pos hcs, List.getElem?_append_right (by omega), Nat.sub_sub]
    · rw [if_neg (by omega), if_neg hcs]

theorem write_write_append (m : Mem) (a : Nat) (bs cs : List UInt8) :
    (m.write a bs).write (a + bs.length) cs = m.write a (bs ++ cs) := by
  funext x
  simp only [write, List.length_append, List.getD_eq_getElem?_getD]
  by_cases hcs : a + bs.length ≤ x ∧ x < a + bs.length + cs.length
  · rw [if_pos hcs, if_pos (by omega), List.getElem?_append_right (by omega), Nat.sub_sub]
  · rw [if_neg hcs]
    by_cases hbs : a ≤ x ∧ x < a + bs.length
    · rw [if_pos hbs, if_pos (by omega), List.getElem?_append_left (by omega)]
    · rw [if_neg hbs, if_neg (by omega)]

theorem write_replicate (m : Mem) (a n : Nat) (v : UInt8) :
    m.write a (List.replicate n v) = fun x => if a ≤ x ∧ x < a + n then v else m x := by
  funext x
  simp only [write, List.length_replicate]
  split
  · rw [List.getD_eq_getElem?_getD, List.getElem?_replicate_of_lt (by omega)]
    rfl
  · rfl

theorem read_write_of_le {m : Mem} {a b n : Nat} {bs : List UInt8} (h : b + n ≤ a) :
    (m.write a bs).read b n = m.read b n := by
  simp only [read]
  exact List.map_congr_left fun i hi =>
    write_apply_of_lt (by have := List.mem_range.mp hi; omega)

theorem read_write_flatten {bss : List (List UInt8)} {n : Nat} (hlen : ∀ bs ∈ bss, bs.length = n)
    (m : Mem) (a : Nat) {i : Nat} (hi : i < bss.length) :
    (m.write a bss.flatten).read (a + i * n) n = bss[i] := by
  induction bss generalizing a i with
  | nil => simp at hi
  | cons bs bss ih =>
    have hbs : bs.length = n := hlen bs List.mem_cons_self
    rw [List.flatten_cons, write_append, hbs]
    cases i with
    | zero =>
      rw [Nat.zero_mul, Nat.add_zero, ← hbs]
      exact read_write_self ..
    | succ i =>
      have hle : a + bs.length ≤ a + (i + 1) * n := by
        rw [hbs, Nat.succ_mul]
        omega
      rw [read_write_of_ge hle, Nat.succ_mul, Nat.add_comm (i * n), ← Nat.add_assoc]
      exact ih (fun bs hbs => hlen bs (List.mem_cons_of_mem _ hbs)) _ (by simpa using hi)

theorem read_congr {m m' : Mem} {a n : Nat} (h : ∀ i < n, m (a + i) = m' (a + i)) :
    m.read a n = m'.read a n := by
  simp only [read]
  exact List.map_congr_left fun i hi => h i (List.mem_range.mp hi)

/-- `memcpy(dst, src, n)`, which copies one byte after the other from the first on. -/
def copy (m : Mem) (dst src : Nat) : Nat → Mem
  | 0 => m
  | n + 1 =>
    let m := m.copy dst src n
    m.write (dst + n) [m (src + n)]

/-- The bytes arrive as they were unless the destination begins behind the source and overlaps
it. -/
theorem copy_eq_write (m : Mem) {dst src n : Nat} (h : dst ≤ src ∨ src + n ≤ dst) :
    m.copy dst src n = m.write dst (m.read src n) := by
  induction n with
  | zero => rw [copy, read, List.range_zero, List.map_nil, write_nil]
  | succ n ih =>
    -- what is copied so far leaves the next byte as it was
    have hnext : m.write dst (m.read src n) (src + n) = m (src + n) := by
      rcases h with h | h
      · exact write_apply_of_ge (by rw [length_read]; omega)
      · exact write_apply_of_lt (by omega)
    have hcopied : m.copy dst src n = m.write dst (m.read src n) :=
      ih (h.imp id fun h => by omega)
    rw [copy, hcopied, hnext, read_succ, ← write_write_append, length_read]

end Mem

/-- The two bytes of a word in little-endian order. -/
def le16 (v : UInt16) : List UInt8 := [v.toUInt8, (v >>> 8).toUInt8]

theorem le16_get16 (m : Mem) (a : Nat) : le16 (m.get16 a) = m.read a 2 := by
  have hlo : (m.get16 a).toUInt8 = m a := by
    apply UInt8.eq_of_toBitVec_eq
    simp only [Mem.get16, UInt16.toBitVec_or, UInt16.toBitVec_shiftLeft, UInt8.toBitVec_toUInt16,
      UInt16.toBitVec_toUInt8]
    ext i hi
    simp
  have hhi : (m.get16 a >>> 8).toUInt8 = m (a + 1) := by
    apply UInt8.eq_of_toBitVec_eq
    simp only [Mem.get16, UInt16.toBitVec_or, UInt16.toBitVec_shiftLeft,
      UInt16.toBitVec_shiftRight, UInt8.toBitVec_toUInt16, UInt16.toBitVec_toUInt8]
    ext i hi
    simp [hi, show 8 + i < 16 by omega]
  simp [le16, hlo, hhi, Mem.read, List.range_succ]

theorem le16_injective : Function.Injective le16 := by
  intro u v h
  have hu := u.toNat_lt
  have hv := v.toNat_lt
  have h8 : (8 : UInt16).toNat % 16 = 8 := rfl
  obtain ⟨hlo, hhi, -⟩ : u.toUInt8 = v.toUInt8 ∧ (u >>> 8).toUInt8 = (v >>> 8).toUInt8 ∧ True := by
    simpa [le16] using h
  rw [← UInt8.toNat_inj, UInt16.toNat_toUInt8, UInt16.toNat_toUInt8] at hlo hhi
  rw [UInt16.toNat_shiftRight, UInt16.toNat_shiftRight, h8, Nat.shiftRight_eq_div_pow,
    Nat.shiftRight_eq_div_pow] at hhi
  apply UInt16.toNat_inj.mp
  omega

/-- The bytes of a C string: those before its first NUL. -/
def cstr (s : List UInt8) : List UInt8 := s.takeWhile (· ≠ 0)

/-- What `strncpy` stores for `n` bytes: the string, cut at `n` bytes or padded with NULs. -/
def strncpy (s : List UInt8) (n : Nat) : List UInt8 :=
  (cstr s).take n ++ List.replicate (n - (cstr s).length) 0

@[simp] theorem length_strncpy (s : List UInt8) (n : Nat) : (strncpy s n).length = n := by
  simp only [strncpy, List.length_append, List.length_take, List.length_replicate]
  omega

/-- The bytes of an ASCII string. -/
def ascii (s : String) : List UInt8 := s.toList.map fun c => UInt8.ofNat c.toNat

/-- `strncmp(s, t, n) == 0` -/
def strncmpEq (s t : List UInt8) (n : Nat) : Bool := (cstr s).take n == (cstr t).take n

/-- `strchr(s, c) + 1`, or nothing where `strchr` returns NULL. -/
def afterChar (s : List UInt8) (c : UInt8) : Option (List UInt8) :=
  match (cstr s).dropWhile (· ≠ c) with
  | [] => none
  | _ :: rest => some rest

theorem cstr_append_of_mem {s t : List UInt8} (h : 0 ∈ s) : cstr (s ++ t) = cstr s := by
  induction s with
  | nil => cases h
  | cons b s ih =>
    by_cases hb : b = 0
    · simp [cstr, hb]
    · have : 0 ∈ s := by simpa [Ne.symm hb] using h
      simpa [cstr, hb] using ih this

theorem cstr_append_of_not_mem {s t : List UInt8} (h : 0 ∉ s) : cstr (s ++ t) = s ++ cstr t := by
  induction s with
  | nil => rfl
  | cons b s ih =>
    obtain ⟨hb, hs⟩ : ¬0 = b ∧ 0 ∉ s := by simpa using h
    simpa [cstr, Ne.symm hb] using ih hs

theorem cstr_of_not_mem {s : List UInt8} (h : 0 ∉ s) : cstr s = s := by
  simpa [cstr] using cstr_append_of_not_mem (t := []) h

theorem cstr_append_zero (s t : List UInt8) : cstr (s ++ 0 :: t) = cstr s := by
  by_cases h : 0 ∈ s
  · exact cstr_append_of_mem h
  · rw [cstr_append_of_not_mem h, cstr_of_not_mem h]
    simp [cstr]

theorem zero_not_mem_cstr (s : List UInt8) : 0 ∉ cstr s := by
  intro h
  simpa using List.mem_takeWhile_imp h

theorem length_cstr_le (s : List UInt8) : (cstr s).length ≤ s.length :=
  (List.takeWhile_sublist _).length_le

theorem cstr_append_replicate {s : List UInt8} (h : 0 ∉ s) (n : Nat) :
    cstr (s ++ List.replicate n 0) = s := by
  rw [cstr_append_of_not_mem h]
  cases n <;> simp [cstr, List.replicate_succ]

@[simp] theorem cstr_cstr (s : List UInt8) : cstr (cstr s) = cstr s :=
  cstr_of_not_mem (zero_not_mem_cstr s)

theorem afterChar_eq_none {s : List UInt8} {c : UInt8} : afterChar s c = none ↔ c ∉ cstr s := by
  simp only [afterChar]
  split
  · next h =>
    refine ⟨fun _ hc => ?_, fun _ => rfl⟩
    have hall := List.dropWhile_eq_nil_iff.mp h c hc
    simp at hall
  · next b rest h =>
    refine ⟨nofun, fun hc => ?_⟩
    rw [List.dropWhile_eq_nil_iff.mpr fun b hb => by
      simpa using ne_of_mem_of_not_mem hb hc] at h
    cases h

/-- The string after the first `c`. -/
theorem afterChar_eq_some {s r : List UInt8} {c : UInt8} (h : afterChar s c = some r) :
    ∃ p, c ∉ p ∧ cstr s = p ++ c :: r := by
  simp only [afterChar] at h
  split at h
  · cases h
  · next b rest hd =>
    obtain rfl := Option.some.inj h
    refine ⟨(cstr s).takeWhile (· ≠ c), fun hc => by simpa using List.mem_takeWhile_imp hc, ?_⟩
    have hb : b = c := by
      have hhead := List.head?_dropWhile_not (· ≠ c) (cstr s)
      rw [hd] at hhead
      simpa using hhead
    calc cstr s = (cstr s).takeWhile (· ≠ c) ++ (cstr s).dropWhile (· ≠ c) :=
          List.takeWhile_append_dropWhile.symm
      _ = (cstr s).takeWhile (· ≠ c) ++ c :: rest := by rw [hd, hb]

theorem cstr_of_afterChar {s r : List UInt8} {c : UInt8} (h : afterChar s c = some r) :
    cstr r = r := by
  obtain ⟨p, -, hs⟩ := afterChar_eq_some h
  have h0 := zero_not_mem_cstr s
  rw [hs, List.mem_append, not_or, List.mem_cons, not_or] at h0
  exact cstr_of_not_mem h0.2.2

/-- What follows some `c` is a part of what follows the first one. -/
theorem suffix_of_afterChar {s r a b : List UInt8} {c : UInt8} (h : afterChar s c = some r)
    (hs : cstr s = a ++ c :: b) : b <:+ r := by
  obtain ⟨p, hp, hs'⟩ := afterChar_eq_some h
  rw [hs'] at hs
  rcases List.append_eq_append_iff.mp hs with ⟨t, -, ht⟩ | ⟨t, rfl, ht⟩
  · cases t with
    | nil => exact (List.cons.inj ht).2 ▸ List.suffix_rfl
    | cons d t =>
      rw [(List.cons.inj ht).2]
      exact ⟨t ++ [c], by simp⟩
  · cases t with
    | nil => exact (List.cons.inj ht).2 ▸ List.suffix_rfl
    | cons d t => exact absurd (by simp [(List.cons.inj ht).1]) hp

theorem afterChar_append {p r : List UInt8} {c : UInt8} (hp : c ∉ p) (h0 : 0 ∉ p ++ c :: r) :
    afterChar (p ++ c :: r) c = some r := by
  rw [afterChar, cstr_of_not_mem h0, List.dropWhile_append_of_pos fun b hb => by
    simpa using ne_of_mem_of_not_mem hb hp]
  simp

/-- The string that `strncpy` leaves after a string without a NUL. -/
theorem cstr_append_strncpy {s : List UInt8} (h : 0 ∉ s) (t : List UInt8) (n : Nat) :
    cstr (s ++ strncpy t n) = s ++ (cstr t).take n := by
  have ht : 0 ∉ s ++ (cstr t).take n := by
    simpa [h] using fun hm => zero_not_mem_cstr t (List.mem_of_mem_take hm)
  rw [strncpy, ← List.append_assoc, cstr_append_replicate ht]

theorem cstr_strncpy (s : List UInt8) (n : Nat) : cstr (strncpy s n) = (cstr s).take n := by
  simpa using cstr_append_strncpy (s := []) (by simp) s n

end Lib
