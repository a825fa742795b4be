import Mathlib.Algebra.Group.Int.Defs
import Mathlib.Algebra.Group.Nat.Defs
import Mathlib.Data.List.Basic

/-! Decimal integers as text: spaces, a sign, and digits, and lists of them with commas between. -/

namespace Lib

/-- The sign before a number. -/
inductive Sign
  | none | plus | minus
deriving DecidableEq

def Sign.bytes : Sign → List UInt8
  | none => []
  | plus => [43]
  | minus => [45]

/-- A decimal integer as it is written. -/
structure Numeral where
  spaces : Nat
  sign : Sign
  digits : List (Fin 10)
  digits_ne : digits ≠ []

/-- The byte of a digit. -/
def digitByte (d : Fin 10) : UInt8 := 48 + UInt8.ofNat d

/-- The number that digits stand for. -/
def magnitude (ds : List (Fin 10)) : Nat := ds.foldl (fun v (d : Fin 10) => v * 10 + d.val) 0

namespace Numeral

variable (n : Numeral)

def bytes : List UInt8 :=
  List.replicate n.spaces 32 ++ (n.sign.bytes ++ n.digits.map digitByte)

def value : Int := if n.sign = .minus then -magnitude n.digits else magnitude n.digits

theorem mem_bytes {b : UInt8} (h : b ∈ n.bytes) :
    b = 32 ∨ b = 43 ∨ b = 45 ∨ ∃ d, b = digitByte d := by
  simp only [bytes, List.mem_append, List.mem_replicate, List.mem_map] at h
  rcases h with ⟨-, rfl⟩ | h | ⟨d, -, rfl⟩
  · exact .inl rfl
  · cases hs : n.sign <;> simp_all [Sign.bytes]
  · exact .inr (.inr (.inr ⟨d, rfl⟩))

theorem not_mem_bytes {b : UInt8} (h : b ≠ 32 ∧ b ≠ 43 ∧ b ≠ 45 ∧ ∀ d, b ≠ digitByte d) :
    b ∉ n.bytes := by
  intro hb
  rcases n.mem_bytes hb with rfl | rfl | rfl | ⟨d, hd⟩
  · exact h.1 rfl
  · exact h.2.1 rfl
  · exact h.2.2.1 rfl
  · exact h.2.2.2 d hd

end Numeral

/-- Numbers with a comma between each two. -/
def commaList (ns : List Numeral) : List UInt8 := [44].intercalate (ns.map Numeral.bytes)

theorem commaList_singleton (n : Numeral) : commaList [n] = n.bytes := by
  simp [commaList]

theorem commaList_cons (n : Numeral) {ns : List Numeral} (h : ns ≠ []) :
    commaList (n :: ns) = n.bytes ++ 44 :: commaList ns := by
  obtain ⟨m, ms, rfl⟩ := List.exists_cons_of_ne_nil h
  simp [commaList]

/-- The separators of a list, and those in its items. -/
theorem count_intercalate {α : Type*} [DecidableEq α] (x : α) {ls : List (List α)} (h : ls ≠ []) :
    ([x].intercalate ls).count x + 1 = ls.length + ls.flatten.count x := by
  induction ls with
  | nil => exact absurd rfl h
  | cons l ls ih =>
    cases ls with
    | nil => simp [Nat.add_comm]
    | cons m ms =>
      have hrest := ih (List.cons_ne_nil m ms)
      rw [List.intercalate_cons_cons, List.count_append, List.count_append,
        List.count_singleton_self]
      rw [List.flatten_cons, List.count_append, List.length_cons]
      omega

/-- Items without a separator are found in a list of as many items. -/
theorem eq_of_intercalate_eq {α : Type*} [DecidableEq α] {x : α} {ls ms : List (List α)}
    (hlen : ls.length = ms.length) (hms : ∀ m ∈ ms, x ∉ m)
    (h : [x].intercalate ls = [x].intercalate ms) : ls = ms := by
  by_cases hls : ls = []
  · subst hls
    exact (List.length_eq_zero_iff.mp hlen.symm).symm
  have hne : ms ≠ [] := by
    rintro rfl
    exact hls (List.length_eq_zero_iff.mp hlen)
  have hcount := count_intercalate x hls
  have hcount' := count_intercalate x hne
  have hflat : ms.flatten.count x = 0 := by simpa [List.count_eq_zero] using hms
  rw [h] at hcount
  have hnone : ∀ l ∈ ls, x ∉ l := by
    have hzero : ls.flatten.count x = 0 := by omega
    simpa [List.count_eq_zero] using hzero
  rw [← List.splitOn_intercalate x hnone hls, h, List.splitOn_intercalate x hms hne]

/-- A list has a comma less than it has numbers. -/
theorem count_commaList {ns : List Numeral} (h : ns ≠ []) :
    (commaList ns).count 44 + 1 = ns.length := by
  have hcount : (commaList ns).count 44 + 1 = _ :=
    count_intercalate 44 (by simpa using h)
  have hitems : (ns.map Numeral.bytes).flatten.count 44 = 0 := by
    rw [List.count_eq_zero, List.mem_flatten]
    rintro ⟨bs, hbs, hmem⟩
    obtain ⟨n, -, rfl⟩ := List.mem_map.mp hbs
    exact n.not_mem_bytes (by decide) hmem
  rwa [hitems, List.length_map] at hcount

theorem magnitude_lt (ds : List (Fin 10)) : magnitude ds < 10 ^ ds.length := by
  have hstep (v : Nat) :
      ds.foldl (fun v (d : Fin 10) => v * 10 + d.val) v < (v + 1) * 10 ^ ds.length := by
    induction ds generalizing v with
    | nil => simp
    | cons d ds ih =>
      have hd := d.isLt
      have hle : (v * 10 + d.val + 1) * 10 ^ ds.length ≤ (v + 1) * 10 * 10 ^ ds.length :=
        Nat.mul_le_mul_right _ (by omega)
      calc (d :: ds).foldl (fun v (d : Fin 10) => v * 10 + d.val) v
        _ < (v * 10 + d.val + 1) * 10 ^ ds.length := ih _
        _ ≤ (v + 1) * 10 * 10 ^ ds.length := hle
        _ = (v + 1) * 10 ^ (d :: ds).length := by rw [List.length_cons, Nat.pow_succ]; ac_rfl
  simpa [magnitude] using hstep 0

/-- Three bytes write no number of four digits, and no negative number of three. -/
theorem Numeral.value_of_length_le {n : Numeral} (h : n.bytes.length ≤ 3) :
    -99 ≤ n.value ∧ n.value ≤ 999 := by
  have hlt := magnitude_lt n.digits
  simp only [Numeral.bytes, List.length_append, List.length_replicate, List.length_map] at h
  unfold Numeral.value
  by_cases hsign : n.sign = .minus
  · have hdigits : n.digits.length ≤ 2 := by
      rw [hsign] at h
      simp only [Sign.bytes, List.length_singleton] at h
      omega
    have hpow := Nat.pow_le_pow_right (show 0 < 10 by decide) hdigits
    rw [if_pos hsign]
    omega
  · have hpow := Nat.pow_le_pow_right (show 0 < 10 by decide) (show n.digits.length ≤ 3 by omega)
    rw [if_neg hsign]
    omega

end Lib
