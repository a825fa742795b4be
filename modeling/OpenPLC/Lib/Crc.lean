import Mathlib

/-! Cyclic redundancy checks.  A register of `w` bits is shifted to the right for each bit of a
message, and the polynomial `taps` is added when the bit that leaves it differs from the bit of the
message.  The register is linear, so a message that arrives with errors is told from a good one
whenever the errors alone, as a message of their own, leave a register other than 0.  This is so for
a burst no longer than the register, for an odd number of errors when the polynomial has an odd
number of taps, and for two errors whose distance is no period of the polynomial. -/

namespace Lib

namespace Crc

variable {w : Nat} (taps : BitVec w)

/-- The register after a bit of the message. -/
def step (r : BitVec w) (b : Bool) : BitVec w :=
  if r.getLsbD 0 ^^ b then r >>> 1 ^^^ taps else r >>> 1

/-- The register after a message. -/
def run (r : BitVec w) (bs : List Bool) : BitVec w := bs.foldl (step taps) r

variable {taps} {r s : BitVec w} {bs cs : List Bool}

@[simp] theorem run_nil : run taps r [] = r := rfl

theorem run_cons (b : Bool) : run taps r (b :: bs) = run taps (step taps r b) bs := rfl

theorem run_append : run taps r (bs ++ cs) = run taps (run taps r bs) cs := List.foldl_append ..

/-! ### Linearity -/

theorem step_xor (b c : Bool) :
    step taps (r ^^^ s) (b ^^ c) = step taps r b ^^^ step taps s c := by
  simp only [step, BitVec.getLsbD_xor, BitVec.ushiftRight_xor_distrib]
  have hcancel : r >>> 1 ^^^ taps ^^^ (s >>> 1 ^^^ taps) = r >>> 1 ^^^ s >>> 1 := by
    rw [BitVec.xor_comm (s >>> 1), BitVec.xor_assoc, ← BitVec.xor_assoc taps, BitVec.xor_self,
      BitVec.zero_xor]
  cases r.getLsbD 0 <;> cases s.getLsbD 0 <;> cases b <;> cases c <;>
    simp [hcancel] <;> ac_rfl

theorem run_xor (h : bs.length = cs.length) :
    run taps (r ^^^ s) (List.zipWith xor bs cs) = run taps r bs ^^^ run taps s cs := by
  induction bs generalizing cs r s with
  | nil => cases cs with
    | nil => rfl
    | cons c cs => cases h
  | cons b bs ih => cases cs with
    | nil => cases h
    | cons c cs =>
      rw [List.zipWith_cons_cons, run_cons, step_xor, ih (Nat.succ_inj.mp h)]
      rfl

@[simp] theorem step_zero_false : step taps 0#w false = 0#w := by simp [step]

@[simp] theorem step_zero_true : step taps 0#w true = taps := by simp [step]

@[simp] theorem run_zero_replicate (n : Nat) : run taps 0#w (List.replicate n false) = 0#w := by
  induction n with
  | zero => rfl
  | succ n ih => rwa [List.replicate_succ, run_cons, step_zero_false]

/-- A message whose own bits are in the register is shifted out. -/
theorem run_range (n : Nat) : run taps r ((List.range n).map r.getLsbD) = r >>> n := by
  induction n with
  | zero => simp
  | succ n ih =>
    rw [List.range_succ, List.map_append, run_append, ih, List.map_singleton, run_cons, run_nil,
      step, if_neg (by simp), BitVec.shiftRight_add]

/-! ### Errors -/

/-- Errors that alone leave a register other than 0 are detected. -/
theorem run_ne_zero_of_errors (hlen : bs.length = cs.length) (hbs : run taps 0#w bs = 0#w)
    (herrors : run taps 0#w (List.zipWith xor bs cs) ≠ 0#w) : run taps 0#w cs ≠ 0#w := by
  intro hcs
  apply herrors
  rw [← BitVec.xor_zero (x := 0#w), run_xor hlen, hbs, hcs]

theorem step_false_eq_zero (htaps : taps.msb = true) (h : step taps r false = 0#w) : r = 0#w := by
  have hbit (i : Nat) : (step taps r false).getLsbD i =
      (r.getLsbD (1 + i) ^^ (r.getLsbD 0 && taps.getLsbD i)) := by
    cases hlow : r.getLsbD 0 <;> simp [step, hlow]
  simp only [h, BitVec.getLsbD_zero] at hbit
  have hlow : r.getLsbD 0 = false := by
    have htop := hbit (w - 1)
    rw [BitVec.getLsbD_of_ge r _ (by omega), ← BitVec.msb_eq_getLsbD_last, htaps] at htop
    simpa using htop
  refine BitVec.eq_of_getLsbD_eq fun i _ => ?_
  rw [BitVec.getLsbD_zero]
  cases i with
  | zero => exact hlow
  | succ i =>
    have hi := hbit i
    rw [hlow, Bool.false_and, Bool.xor_false, Nat.add_comm] at hi
    exact hi.symm

theorem run_replicate_eq_zero (htaps : taps.msb = true) {n : Nat}
    (h : run taps r (List.replicate n false) = 0#w) : r = 0#w := by
  induction n generalizing r with
  | zero => exact h
  | succ n ih => exact step_false_eq_zero htaps (ih h)

/-- Errors close together are detected. -/
theorem run_burst (htaps : taps.msb = true) (hlen : bs.length ≤ w) (herror : true ∈ bs)
    (n m : Nat) :
    run taps 0#w (List.replicate n false ++ bs ++ List.replicate m false) ≠ 0#w := by
  rw [run_append, run_append, run_zero_replicate]
  intro h
  have hzero := run_replicate_eq_zero htaps h
  -- the register that holds the errors, after as many bits without any
  let r : BitVec w := (BitVec.ofBoolListLE bs).setWidth w
  have hr (i : Nat) : r.getLsbD i = bs.getD i false := by
    rw [BitVec.getLsbD_setWidth, BitVec.getLsbD_ofBoolListLE]
    by_cases hi : i < w
    · simp [hi]
    · rw [List.getD_eq_default _ _ (by omega), Bool.and_false]
  have hbs : (List.range bs.length).map r.getLsbD = bs := by
    refine List.ext_getElem (by simp) fun i _ hi => ?_
    simp [hr, hi]
  have hshift : r >>> bs.length = 0#w := by
    refine BitVec.eq_of_getLsbD_eq fun i _ => ?_
    rw [BitVec.getLsbD_ushiftRight, hr, List.getD_eq_default _ _ (by omega), BitVec.getLsbD_zero]
  have hrun : run taps r (List.replicate bs.length false) = 0#w := by
    have hxor : run taps (r ^^^ 0#w) (List.zipWith xor (List.replicate bs.length false) bs) =
        run taps r (List.replicate bs.length false) ^^^ run taps 0#w bs := run_xor (by simp)
    have hself : List.zipWith xor (List.replicate bs.length false) bs = bs := by
      refine List.ext_getElem (by simp) fun i _ _ => ?_
      simp
    rw [hself, hzero, BitVec.xor_zero, BitVec.xor_zero] at hxor
    rw [← hxor]
    calc run taps r bs
      _ = run taps r ((List.range bs.length).map r.getLsbD) := by rw [hbs]
      _ = 0#w := by rw [run_range, hshift]
  obtain ⟨i, hi, hget⟩ := List.getElem_of_mem herror
  have htrue : r.getLsbD i = true := by rw [hr, List.getD_eq_getElem _ _ hi, hget]
  rw [run_replicate_eq_zero htaps hrun] at htrue
  simp at htrue

/-- Two errors are detected, unless the polynomial has their distance as a period. -/
theorem run_two {k : Nat} (hperiod : run taps taps (List.replicate (k + 1) false) ≠ taps)
    (htaps : taps.msb = true) (n m : Nat) :
    run taps 0#w (List.replicate n false ++
      true :: (List.replicate k false ++ true :: List.replicate m false)) ≠ 0#w := by
  rw [run_append, run_zero_replicate, run_cons, step_zero_true, run_append, run_cons]
  intro h
  have hzero := run_replicate_eq_zero htaps h
  have hstep : step taps (run taps taps (List.replicate k false) ^^^ 0#w) (false ^^ true) =
      step taps (run taps taps (List.replicate k false)) false ^^^ step taps 0#w true := step_xor ..
  rw [BitVec.xor_zero, Bool.false_xor, hzero, step_zero_true] at hstep
  apply hperiod
  rw [List.replicate_succ', run_append, run_cons, run_nil]
  exact BitVec.xor_eq_zero_iff.mp hstep.symm

theorem exists_of_count_succ {n : Nat} (h : bs.count true = n + 1) :
    ∃ k cs, bs = List.replicate k false ++ true :: cs ∧ cs.count true = n := by
  induction bs with
  | nil => simp at h
  | cons b bs ih =>
    cases b
    · obtain ⟨k, cs, rfl, hcs⟩ := ih (by simpa using h)
      exact ⟨k + 1, cs, rfl, hcs⟩
    · exact ⟨0, bs, rfl, by simpa using h⟩

/-- Two errors in a message that is shorter than the periods of the polynomial are detected. -/
theorem run_count_two (htaps : taps.msb = true) (htwo : bs.count true = 2)
    (hperiod : ∀ k < bs.length - 1, run taps taps (List.replicate (k + 1) false) ≠ taps) :
    run taps 0#w bs ≠ 0#w := by
  obtain ⟨n, cs, rfl, hone⟩ := exists_of_count_succ htwo
  obtain ⟨k, ds, rfl, hzero⟩ := exists_of_count_succ hone
  have hds : ds = List.replicate ds.length false := by
    refine List.eq_replicate_iff.mpr ⟨rfl, fun b hb => ?_⟩
    cases b
    · rfl
    · exact absurd hb (List.count_eq_zero.mp hzero)
  rw [hds]
  exact run_two (hperiod k (by simp; omega)) htaps n ds.length

/-! ### Parity -/

/-- Whether the number of the bits that are set is even or odd. -/
def parity (r : BitVec w) : ZMod 2 := ∑ i ∈ Finset.range w, ((r.getLsbD i).toNat : ZMod 2)

theorem toNat_xor (b c : Bool) : ((b ^^ c).toNat : ZMod 2) = b.toNat + c.toNat := by
  cases b <;> cases c <;> decide

theorem parity_xor : parity (r ^^^ s) = parity r + parity s := by
  simp only [parity, BitVec.getLsbD_xor, toNat_xor, Finset.sum_add_distrib]

theorem parity_shift : parity (r >>> 1) + (r.getLsbD 0).toNat = parity r := by
  calc parity (r >>> 1) + ((r.getLsbD 0).toNat : ZMod 2)
    _ = ∑ i ∈ Finset.range (w + 1), ((r.getLsbD i).toNat : ZMod 2) := by
      rw [Finset.sum_range_succ']
      simp only [parity, BitVec.getLsbD_ushiftRight, Nat.add_comm 1]
    _ = parity r := by
      rw [Finset.sum_range_succ, BitVec.getLsbD_of_ge r w (Nat.le_refl w)]
      simp [parity]

theorem parity_step (htaps : parity taps = 1) (b : Bool) :
    parity (step taps r b) = parity r + b.toNat := by
  have hshift := parity_shift (r := r)
  have htwo : (1 : ZMod 2) + 1 = 0 := by decide
  cases hlow : r.getLsbD 0 <;> cases b <;>
    simp [step, hlow, parity_xor, htaps, ← hshift, add_assoc, htwo]

theorem parity_run (htaps : parity taps = 1) :
    parity (run taps r bs) = parity r + (bs.count true : ℕ) := by
  induction bs generalizing r with
  | nil => simp
  | cons b bs ih =>
    rw [run_cons, ih, parity_step htaps, List.count_cons, add_assoc]
    cases b <;> simp [add_comm]

/-- An odd number of errors is detected. -/
theorem run_odd (htaps : parity taps = 1) (hodd : Odd (bs.count true)) : run taps 0#w bs ≠ 0#w := by
  intro h
  have hrun : parity (run taps 0#w bs) = parity 0#w + (bs.count true : ℕ) := parity_run htaps
  rw [h, left_eq_add, ZMod.natCast_eq_zero_iff_even] at hrun
  exact Nat.not_even_iff_odd.mpr hodd hrun

end Crc

end Lib
