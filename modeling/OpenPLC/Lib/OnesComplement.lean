import Mathlib.Data.Nat.ModEq
import OpenPLC.Lib.Bytes

/-! Ones' complement sums of 16-bit words, where a carry is added back in.  Such a sum is the sum of
the words modulo `2 ^ 16 - 1`, with `2 ^ 16 - 1` in the place of 0 unless every word is 0.  So bytes
whose sum was stored in them with all bits inverted sum up to all ones, and a change of one word is
seen in the sum unless it exchanges 0 and all ones. -/

namespace Lib

namespace OnesComplement

/-- The number with the carries out of 16 bits added back in. -/
def fold (n : Nat) : Nat := if n = 0 then 0 else (n - 1) % 65535 + 1

theorem fold_lt (n : Nat) : fold n < 65536 := by
  unfold fold
  split <;> omega

theorem fold_of_lt {n : Nat} (h : n < 65536) : fold n = n := by
  unfold fold
  split <;> omega

theorem fold_add (n k : Nat) : fold (fold n + k) = fold (n + k) := by
  unfold fold
  split_ifs <;> omega

theorem fold_modEq (n : Nat) : fold n ≡ n [MOD 65535] := by
  unfold fold Nat.ModEq
  split <;> omega

theorem fold_eq_zero_iff {n : Nat} : fold n = 0 ↔ n = 0 := by
  unfold fold
  split <;> omega

/-- Addition with the carry added back in. -/
theorem toNat_add_carry (s t : UInt16) :
    (if s + t < t then s + t + 1 else s + t).toNat = fold (s.toNat + t.toNat) := by
  have hs := s.toNat_lt
  have ht := t.toNat_lt
  have h1 : (1 : UInt16).toNat = 1 := rfl
  unfold fold
  split
  · next hlt =>
    rw [UInt16.lt_iff_toNat_lt, UInt16.toNat_add] at hlt
    rw [UInt16.toNat_add, UInt16.toNat_add, h1]
    split <;> omega
  · next hlt =>
    rw [UInt16.lt_iff_toNat_lt, UInt16.toNat_add] at hlt
    rw [UInt16.toNat_add]
    split <;> omega

/-- The sum of the big-endian words of some bytes, the last one padded with a zero byte. -/
def wordSum : List UInt8 → Nat
  | [] => 0
  | [a] => a.toNat * 256
  | a :: b :: bs => a.toNat * 256 + b.toNat + wordSum bs

@[simp] theorem wordSum_nil : wordSum [] = 0 := rfl

theorem wordSum_append {xs : List UInt8} (h : xs.length % 2 = 0) (ys : List UInt8) :
    wordSum (xs ++ ys) = wordSum xs + wordSum ys := by
  induction xs using wordSum.induct with
  | case1 => simp
  | case2 a => simp at h
  | case3 a b xs ih =>
    have heven : xs.length % 2 = 0 := by
      simp only [List.length_cons] at h
      omega
    simp only [List.cons_append, wordSum, ih heven]
    omega

/-- The word of a field of two bytes. -/
theorem wordSum_pair (a b : UInt8) : wordSum [a, b] = a.toNat * 256 + b.toNat := by
  simp [wordSum]

/-- A field of two bytes adds its own word to the sum. -/
theorem wordSum_write (m : Mem) (a n x : Nat) (bs : List UInt8) (hbs : bs.length = 2)
    (hax : a ≤ x) (hxn : x + 2 ≤ a + n) (heven : (x - a) % 2 = 0) :
    wordSum ((m.write x bs).read a n) + wordSum (m.read x 2) =
      wordSum (m.read a n) + wordSum bs := by
  obtain ⟨i, rfl⟩ := Nat.exists_eq_add_of_le hax
  obtain ⟨k, rfl⟩ : ∃ k, n = i + (2 + k) := ⟨n - i - 2, by omega⟩
  rw [Nat.add_sub_cancel_left] at heven
  have hfield : (m.write (a + i) bs).read (a + i) 2 = bs := by
    have hself := Mem.read_write_self m (a + i) bs
    rwa [hbs] at hself
  have hbefore : (m.write (a + i) bs).read a i = m.read a i :=
    Mem.read_write_of_le (Nat.le_refl _)
  have hbehind : (m.write (a + i) bs).read (a + i + 2) k = m.read (a + i + 2) k :=
    Mem.read_write_of_ge (by rw [hbs])
  have hsplit (m : Mem) : wordSum (m.read a (i + (2 + k))) =
      wordSum (m.read a i) + (wordSum (m.read (a + i) 2) + wordSum (m.read (a + i + 2) k)) := by
    rw [← Mem.read_append, ← Mem.read_append, wordSum_append (by simpa using heven),
      wordSum_append (by simp)]
  rw [hsplit, hsplit, hbefore, hfield, hbehind]
  omega

/-- The bytes of which all checks are made: their words sum up to a multiple of `2 ^ 16 - 1`. -/
def Checks (n : Nat) : Prop := n % 65535 = 0

instance (n : Nat) : Decidable (Checks n) := inferInstanceAs (Decidable (_ = _))

theorem checks_fold_add {n k : Nat} : Checks (fold n + k) ↔ Checks (n + k) := by
  have hmod : fold n % 65535 = n % 65535 := fold_modEq n
  unfold Checks
  omega

/-- The inverted sum, added in, makes the check. -/
theorem checks_add_not (n : Nat) : Checks (n + (65535 - fold n)) := by
  have hlt := fold_lt n
  have hmod : fold n % 65535 = n % 65535 := fold_modEq n
  unfold Checks
  omega

/-- A word that replaces another one is seen, unless it is the same number modulo `2 ^ 16 - 1`. -/
theorem checks_replace {n m a b : Nat} (hsum : m + a = n + b) (h : Checks n) :
    Checks m ↔ a ≡ b [MOD 65535] := by
  unfold Checks at h ⊢
  unfold Nat.ModEq
  omega

/-- Two words are the same number modulo `2 ^ 16 - 1` only if they are equal, or 0 and all ones. -/
theorem modEq_iff_of_lt {a b : Nat} (ha : a < 65536) (hb : b < 65536) :
    a ≡ b [MOD 65535] ↔ a = b ∨ a = 0 ∧ b = 65535 ∨ a = 65535 ∧ b = 0 := by
  unfold Nat.ModEq
  omega

end OnesComplement

end Lib
