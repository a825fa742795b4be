import Mathlib.Data.List.FinRange
import Mathlib.Logic.Function.Basic
import OpenPLC.Lib.Bytes

/-! Memory block allocation, `memb.c`: blocks of one size with a count of references each. -/

namespace OpenPLC

open Lib

/-- A memory block of `size` bytes. -/
structure Block (size : Nat) where
  bytes : List UInt8
  length_eq : bytes.length = size

namespace Block

variable {size : Nat}

def zero : Block size := ⟨List.replicate size 0, List.length_replicate⟩

/-- Store bytes at an offset. -/
def store (k : Block size) (i : Nat) (bs : List UInt8) : Block size :=
  ⟨k.bytes.mapIdx fun j b => if i ≤ j ∧ j < i + bs.length then bs.getD (j - i) 0 else b, by
    simp [k.length_eq]⟩

/-- The string in a block: its bytes before the first NUL, or all of them. -/
def text (k : Block size) : List UInt8 := cstr k.bytes

theorem length_text_le (k : Block size) : k.text.length ≤ size := by
  simpa [text, k.length_eq] using length_cstr_le k.bytes

theorem length_text_lt_iff {k : Block size} : k.text.length < size ↔ 0 ∈ k.bytes := by
  have hk := k.length_eq
  constructor
  · intro h
    by_contra hnot
    rw [text, cstr_of_not_mem hnot] at h
    omega
  · intro h
    have hle := k.length_text_le
    by_contra hge
    have hfull : k.text = k.bytes := by
      refine (List.takeWhile_prefix _).eq_of_length ?_
      rw [show (List.takeWhile (· ≠ 0) k.bytes).length = k.text.length from rfl]
      omega
    exact zero_not_mem_cstr k.bytes (by rwa [← text, hfull])

theorem bytes_store {k : Block size} {i : Nat} {bs : List UInt8} (h : i + bs.length ≤ size) :
    (k.store i bs).bytes = k.bytes.take i ++ bs ++ k.bytes.drop (i + bs.length) := by
  have hk := k.length_eq
  apply List.ext_getElem
  · simp [store]
    omega
  · intro j h1 h2
    simp only [store, List.length_mapIdx] at h1
    simp only [store, List.getElem_mapIdx, List.getElem_append, List.length_append,
      List.length_take, List.getElem_take, List.getElem_drop,
      show min i k.bytes.length = i by omega]
    by_cases hlt : j < i
    · simp [hlt, show ¬i ≤ j by omega, show j < i + bs.length by omega]
    · by_cases hin : j < i + bs.length
      · simp [hlt, hin, show i ≤ j by omega, show j - i < bs.length by omega]
      · simp [hin, show i + bs.length + (j - (i + bs.length)) = j by omega]

theorem text_store_strncpy (k : Block size) (str : List UInt8) :
    (k.store 0 (strncpy str size)).text = (cstr str).take size := by
  rw [text, bytes_store (by simp), length_strncpy, Nat.zero_add,
    List.drop_of_length_le k.length_eq.le]
  simpa using cstr_strncpy str size

/-- `strncpy` of a second string after a first one that leaves room. -/
theorem text_store_strncpy_append (k : Block size) {str1 : List UInt8} (str2 : List UInt8)
    (h : (cstr str1).length < size) :
    ((k.store 0 (strncpy str1 size)).store (cstr str1).length
      (strncpy str2 (size - (cstr str1).length))).text = (cstr str1 ++ cstr str2).take size := by
  have h1 : (k.store 0 (strncpy str1 size)).bytes = strncpy str1 size := by
    rw [bytes_store (by simp), length_strncpy, Nat.zero_add,
      List.drop_of_length_le k.length_eq.le]
    simp
  have htake : (strncpy str1 size).take (cstr str1).length = cstr str1 := by
    rw [strncpy, List.take_of_length_le h.le, List.take_append_of_le_length le_rfl,
      List.take_length]
  rw [text, bytes_store (by simp; omega), h1, htake, length_strncpy,
    List.drop_of_length_le (by simp; omega), List.append_nil,
    cstr_append_strncpy (zero_not_mem_cstr str1), List.take_append,
    List.take_of_length_le (l := cstr str1) h.le]

/-- A store of a string with its NUL at the end of the string in a block. -/
theorem text_store_length (k : Block size) {bs : List UInt8} (hbs : 0 ∉ bs)
    (h : k.text.length + bs.length < size) :
    (k.store k.text.length (bs ++ [0])).text = k.text ++ bs := by
  have hpre : k.bytes.take k.text.length = k.text :=
    (List.prefix_iff_eq_take.mp (List.takeWhile_prefix _)).symm
  have hnot : 0 ∉ k.text ++ bs := by simpa [hbs, text] using zero_not_mem_cstr k.bytes
  rw [text, bytes_store (by simp; omega), hpre, ← List.append_assoc,
    List.append_assoc (k.text ++ bs), cstr_append_of_not_mem hnot]
  simp [cstr]

end Block

/-- `struct memb_blocks` -/
structure Memb (size num : Nat) where
  count : Fin num → Nat
  mem : Fin num → Block size

namespace Memb

variable {size num : Nat}

/-- `memb_init` -/
def init : Memb size num := ⟨fun _ => 0, fun _ => .zero⟩

/-- `memb_alloc` -/
def alloc (m : Memb size num) : Option (Fin num × Memb size num) :=
  match (List.finRange num).find? fun i => m.count i = 0 with
  | some i => some (i, { m with count := Function.update m.count i (m.count i + 1) })
  | none => none

/-- `memb_free` of a pointer to a block, which returns the new count. -/
def free (m : Memb size num) (i : Fin num) : Nat × Memb size num :=
  let m :=
    if 0 < m.count i then { m with count := Function.update m.count i (m.count i - 1) } else m
  (m.count i, m)

/-- Store bytes in a block. -/
def store (m : Memb size num) (b : Fin num) (i : Nat) (bs : List UInt8) : Memb size num :=
  { m with mem := Function.update m.mem b ((m.mem b).store i bs) }

/-- The memory from the start of a block to the end of the last block. -/
def tail (m : Memb size num) (b : Fin num) : List UInt8 :=
  ((List.finRange num).drop b).flatMap fun i => (m.mem i).bytes

/-- `strlen` of a block, which reads on in the blocks after it when it finds no NUL. -/
def strlen (m : Memb size num) (b : Fin num) : Nat := (cstr (m.tail b)).length

/-- The number of free blocks. -/
def numFree (m : Memb size num) : Nat := (List.finRange num).countP fun i => m.count i = 0

/-- No block is in use. -/
def AllFree (m : Memb size num) : Prop := ∀ b, m.count b = 0

instance (m : Memb size num) : Decidable m.AllFree := inferInstanceAs (Decidable (∀ _, _))

theorem alloc_eq_some {m m' : Memb size num} {b : Fin num} (h : m.alloc = some (b, m')) :
    m.count b = 0 ∧ m' = { m with count := Function.update m.count b 1 } := by
  simp only [alloc] at h
  split at h
  · next i hi =>
    have hc : m.count i = 0 := by simpa using List.find?_some hi
    simp only [Option.some.injEq, Prod.mk.injEq] at h
    obtain ⟨rfl, rfl⟩ := h
    exact ⟨hc, by rw [hc]⟩
  · cases h

theorem alloc_eq_none {m : Memb size num} (h : m.alloc = none) (b : Fin num) : m.count b ≠ 0 := by
  simp only [alloc] at h
  split at h
  · cases h
  · next hf => simpa using List.find?_eq_none.mp hf b (List.mem_finRange b)

/-- A block that is taken is one free block less. -/
theorem numFree_update {m m' : Memb size num} {b : Fin num} (h : m.count b = 0)
    (hm' : m'.count = Function.update m.count b 1) : m'.numFree = m.numFree - 1 := by
  have hfree : (List.finRange num).filter (fun i => m'.count i = 0) =
      ((List.finRange num).filter fun i => m.count i = 0).erase b := by
    rw [((List.nodup_finRange num).filter _).erase_eq_filter, List.filter_filter]
    refine List.filter_congr fun i _ => ?_
    by_cases hi : i = b <;> simp [hm', hi]
  have hmem : b ∈ (List.finRange num).filter fun i => m.count i = 0 := by simp [h]
  rw [numFree, numFree, List.countP_eq_length_filter, List.countP_eq_length_filter, hfree,
    List.length_erase_of_mem hmem]

theorem numFree_of_allFree {m : Memb size num} (h : m.AllFree) : m.numFree = num := by
  have hall : ∀ b ∈ List.finRange num, decide (m.count b = 0) = true := fun b _ => by simp [h b]
  rw [numFree, List.countP_eq_length.mpr hall, List.length_finRange]

@[simp] theorem free_mem (m : Memb size num) (b : Fin num) : (m.free b).2.mem = m.mem := by
  simp only [free]
  split <;> rfl

theorem free_count (m : Memb size num) (b : Fin num) :
    (m.free b).2.count = Function.update m.count b (m.count b - 1) := by
  simp only [free]
  split
  · rfl
  · rw [show m.count b - 1 = m.count b by omega, Function.update_eq_self]

@[simp] theorem store_count (m : Memb size num) (b : Fin num) (i : Nat) (bs : List UInt8) :
    (m.store b i bs).count = m.count := rfl

theorem tail_eq (m : Memb size num) (b : Fin num) : ∃ rest, m.tail b = (m.mem b).bytes ++ rest := by
  have h : b.val < (List.finRange num).length := by simp
  rw [tail, List.drop_eq_getElem_cons h, List.flatMap_cons, List.getElem_finRange]
  exact ⟨_, rfl⟩

/-- `strlen` cut at the size of the block is the length of the string in the block. -/
theorem min_strlen (m : Memb size num) (b : Fin num) :
    min (m.strlen b) size = (m.mem b).text.length := by
  obtain ⟨rest, h⟩ := m.tail_eq b
  have hk := (m.mem b).length_eq
  simp only [strlen, h, Block.text]
  by_cases h0 : 0 ∈ (m.mem b).bytes
  · rw [cstr_append_of_mem h0]
    have := length_cstr_le (m.mem b).bytes
    omega
  · rw [cstr_append_of_not_mem h0, cstr_of_not_mem h0, List.length_append]
    omega

theorem strlen_lt_iff {m : Memb size num} {b : Fin num} :
    m.strlen b < size ↔ 0 ∈ (m.mem b).bytes := by
  rw [← Block.length_text_lt_iff, ← m.min_strlen b]
  omega

/-- `strlen` of a block, cut at the size of the block, reads the string in the block. -/
theorem take_strlen (m : Memb size num) (b : Fin num) :
    (m.tail b).take (min (m.strlen b) size) = (m.mem b).text := by
  obtain ⟨rest, h⟩ := m.tail_eq b
  have hpre : (m.mem b).text <+: m.tail b := by
    rw [h]
    exact (List.takeWhile_prefix _).trans (List.prefix_append ..)
  rw [m.min_strlen b]
  exact (List.prefix_iff_eq_take.mp hpre).symm

end Memb

end OpenPLC
