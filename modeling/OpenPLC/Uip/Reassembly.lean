import OpenPLC.Uip.Integrity

/-! What reassembly hands on.  The bitmap has one bit for each 8 bytes of the packet, and a bit is
set if and only if one fragment has these bytes; so what is handed on was received, but for the 64
bytes whose bits `uip_reass` does not look at.  All of it holds as long as no fragment makes
`uip_reass` write behind its arrays. -/

namespace OpenPLC

open Lib

/-! ### The bitmap -/

/-- Bit `k` of a byte of the bitmap, from the highest one on. -/
def bitAt (v : UInt8) (k : Nat) : Bool := v.toBitVec.getLsbD (7 - k)

theorem bitAt_or (v w : UInt8) (k : Nat) : bitAt (v ||| w) k = (bitAt v k || bitAt w k) := by
  simp [bitAt]

theorem bitAt_and (v w : UInt8) (k : Nat) : bitAt (v &&& w) k = (bitAt v k && bitAt w k) := by
  simp [bitAt]

theorem bitAt_not (v : UInt8) (k : Nat) : bitAt (~~~v) k = !bitAt v k := by
  have hlt : 7 - k < 8 := by omega
  simp [bitAt, hlt]

theorem bitAt_ones (k : Nat) : bitAt 0xff k = true := by
  have hlt : 7 - k < 8 := by omega
  have hall : ∀ i : Fin 8, (0xff : UInt8).toBitVec.getLsbD i = true := by decide
  exact hall ⟨7 - k, hlt⟩

theorem bitAt_zero (k : Nat) : bitAt 0 k = false := by
  simp [bitAt]

theorem bitAt_bitmapBits (i : UInt16) {k : Nat} (hk : k < 8) :
    bitAt (bitmapBits i) k = decide (i.toNat % 8 ≤ k) := by
  have hmask : (i &&& 7).toNat = i.toNat % 8 := by
    rw [UInt16.toNat_and]
    exact Nat.and_two_pow_sub_one_eq_mod i.toNat 3
  have hall : ∀ n k : Fin 8,
      bitAt ([0xff, 0x7f, 0x3f, 0x1f, 0x0f, 0x07, 0x03, 0x01].getD n 0) k = decide (n ≤ k) := by
    decide
  unfold bitmapBits
  rw [hmask]
  exact hall ⟨i.toNat % 8, Nat.mod_lt _ (by decide)⟩ ⟨k, hk⟩

/-- The bit of the 8 bytes from `8 * j` on is set. -/
def Covered (bitmap : Mem) (j : Nat) : Prop := bitAt (bitmap (j / 8)) (j % 8) = true

theorem write_byte (m : Mem) (a : Nat) (v : UInt8) (x : Nat) :
    m.write a [v] x = if x = a then v else m x := by
  split
  · next h =>
    subst h
    have hlen : 0 < [v].length := Nat.zero_lt_one
    exact Mem.write_apply_add hlen
  · next h =>
    rcases Nat.lt_or_gt_of_ne h with h | h
    · exact Mem.write_apply_of_lt h
    · exact Mem.write_apply_of_ge h

theorem write_ones (m : Mem) (a n : Nat) (v : UInt8) (x : Nat) :
    m.write a (List.replicate n v) x = if a ≤ x ∧ x < a + n then v else m x := by
  unfold Mem.write
  rw [List.length_replicate]
  split
  · next h => simp [show x - a < n by omega]
  · rfl

/-- A fragment sets the bits of the bytes that it has, as far as it has all 8 of them. -/
theorem covered_reassMark {bitmap : Mem} {offset len : UInt16} {e : Nat}
    (he : (offset + len).toNat = e) (hle : offset.toNat ≤ e) (j : Nat) :
    Covered (reassMark bitmap offset len) j ↔
      Covered bitmap j ∨ offset.toNat / 8 ≤ j ∧ j < e / 8 := by
  have hk : j % 8 < 8 := Nat.mod_lt _ (by decide)
  have hfirst : (offset / 64).toNat = offset.toNat / 64 := UInt16.toNat_div ..
  have hlast : ((offset + len) / 64).toNat = e / 64 := by
    rw [UInt16.toNat_div, he]
    rfl
  have hfrom : (offset / 8).toNat = offset.toNat / 8 := UInt16.toNat_div ..
  have hto : ((offset + len) / 8).toNat = e / 8 := by
    rw [UInt16.toNat_div, he]
    rfl
  unfold Covered reassMark
  simp only [hfirst, hlast]
  split
  · next heq =>
    rw [write_byte]
    split
    · next hj =>
      rw [← hj, bitAt_or, bitAt_and, bitAt_not, bitAt_bitmapBits _ hk, bitAt_bitmapBits _ hk,
        hfrom, hto]
      simp only [Bool.or_eq_true, Bool.and_eq_true, Bool.not_eq_true', decide_eq_true_eq,
        decide_eq_false_iff_not]
      refine or_congr_right ?_
      omega
    · next hj =>
      rw [or_iff_left]
      omega
  · next hne =>
    rw [write_byte]
    split
    · next hj =>
      rw [write_ones, if_neg (by omega), write_byte, if_neg (Ne.symm hne), ← hj, bitAt_or,
        bitAt_not, bitAt_bitmapBits _ hk, hto]
      simp only [Bool.or_eq_true, Bool.not_eq_true', decide_eq_false_iff_not]
      refine or_congr_right ?_
      omega
    · next hj =>
      rw [write_ones]
      split
      · next hmid =>
        rw [bitAt_ones]
        refine iff_of_true rfl (.inr ?_)
        omega
      · next hmid =>
        rw [write_byte]
        split
        · next hj' =>
          rw [← hj', bitAt_or, bitAt_bitmapBits _ hk, hfrom]
          simp only [Bool.or_eq_true, decide_eq_true_eq]
          refine or_congr_right ?_
          omega
        · next hj' =>
          rw [or_iff_left]
          omega

theorem covered_clear (bitmap : Mem) {j : Nat} (hj : j < 120) :
    ¬Covered (bitmap.write 0 (List.replicate 15 0)) j := by
  unfold Covered
  rw [write_ones, if_pos (by omega), bitAt_zero]
  exact Bool.false_ne_true

/-! ### A fragment -/

/-- The fragment has byte `x` of the packet. -/
def Carries (b : Mem) (x : Nat) : Prop :=
  (fragOffset b).toNat ≤ x ∧ x < (fragOffset b).toNat + (fragLen b).toNat

/-- Byte `x` of the packet in the fragment. -/
def byteAt (b : Mem) (x : Nat) : UInt8 := b (34 + (x - (fragOffset b).toNat))

/-- The bytes of the fragment have their bits in the bitmap. -/
def Mapped (b : Mem) : Prop := (fragOffset b).toNat + (fragLen b).toNat < 960

theorem fragOffset_mod (b : Mem) : (fragOffset b).toNat % 8 = 0 := by
  unfold fragOffset
  rw [UInt16.toNat_mul]
  have h8 : (8 : UInt16).toNat = 8 := rfl
  rw [h8]
  omega

theorem Mapped.toNat_add {b : Mem} (h : Mapped b) :
    (fragOffset b + fragLen b).toNat = (fragOffset b).toNat + (fragLen b).toNat := by
  unfold Mapped at h
  rw [UInt16.toNat_add]
  omega

theorem mapped_of_taken {b : Mem} {r : Reass} (h : ¬ReassOverruns b r) (htaken : Taken b r) :
    Mapped b := not_le.mp fun hle => h ⟨htaken, hle⟩

/-! ### One call -/

/-- `uip_reass` with the fragment in its buffer and in its bitmap. -/
def reassStore (b : Mem) (r : Reass) : Reass :=
  let r := { r with
    buf := r.buf.write (20 + (fragOffset b).toNat)
      (b.read (14 + ((b 14 &&& 0x0f) * 4).toUInt16.toNat) (fragLen b).toNat)
    bitmap := reassMark r.bitmap (fragOffset b) (fragLen b) }
  if b 20 &&& 0x20 = 0 then { r with lastfrag := true, len := fragOffset b + fragLen b } else r

/-- The packet is complete with this fragment. -/
def Completes (b : Mem) (r : Reass) : Prop :=
  (reassStore b (reassStart b r)).lastfrag = true ∧
    reassComplete (reassStore b (reassStart b r)).bitmap
      (reassStore b (reassStart b r)).len = true

instance (b : Mem) (r : Reass) : Decidable (Completes b r) := inferInstanceAs (Decidable (_ ∧ _))

theorem uipReass_eq (b : Mem) (r : Reass) : uipReass b r =
    if sameFragment b (reassStart b r) then
      if fragOffset b > 1010 ∨ fragOffset b + fragLen b > 1010 then
        (0, b, { reassStart b r with tmr := 0 })
      else if Completes b r then
        ((reassStore b (reassStart b r)).len.toUInt8,
          reassCopy b (reassStore b (reassStart b r)),
          { reassStore b (reassStart b r) with tmr := 0 })
      else (0, b, reassStore b (reassStart b r))
    else (0, b, reassStart b r) := rfl

theorem uipReass_of_not_taken {b : Mem} {r : Reass} (h : ¬Taken b r) :
    (uipReass b r).1 = 0 ∧ ((uipReass b r).2.2 = reassStart b r ∨ (uipReass b r).2.2.tmr = 0) := by
  rw [uipReass_eq]
  split
  · next hsame =>
    have hreach : ¬InReach b := fun hreach => h ⟨hsame, hreach⟩
    rw [if_pos (not_not.mp hreach)]
    exact ⟨rfl, .inr rfl⟩
  · exact ⟨rfl, .inl rfl⟩

theorem uipReass_of_taken {b : Mem} {r : Reass} (h : Taken b r) :
    uipReass b r =
      if Completes b r then
        ((reassStore b (reassStart b r)).len.toUInt8,
          reassCopy b (reassStore b (reassStart b r)),
          { reassStore b (reassStart b r) with tmr := 0 })
      else (0, b, reassStore b (reassStart b r)) := by
  rw [uipReass_eq, if_pos h.1]
  exact if_neg h.2

theorem reassStore_buf (b : Mem) (r : Reass) :
    (reassStore b r).buf = r.buf.write (20 + (fragOffset b).toNat)
      (b.read (14 + ((b 14 &&& 0x0f) * 4).toUInt16.toNat) (fragLen b).toNat) := by
  unfold reassStore
  dsimp only
  split <;> rfl

theorem reassStore_bitmap (b : Mem) (r : Reass) :
    (reassStore b r).bitmap = reassMark r.bitmap (fragOffset b) (fragLen b) := by
  unfold reassStore
  dsimp only
  split <;> rfl

/-- The fragment has no other behind it. -/
def LastFragment (b : Mem) : Prop := b 20 &&& 0x20 = 0

instance (b : Mem) : Decidable (LastFragment b) := inferInstanceAs (Decidable (_ = _))

/-! ### The packet under reassembly -/

/-- The length of a packet with the fragments `fs`, from the end of the latest one that has no other
behind it. -/
def packetLen (fs : List Mem) : Option Nat :=
  (fs.filter fun f => LastFragment f).getLast?.map fun f =>
    (fragOffset f).toNat + (fragLen f).toNat

/-- One of the fragments has all 8 bytes from `8 * j` on. -/
def HasBlock (fs : List Mem) (j : Nat) : Prop :=
  ∃ f ∈ fs, Carries f (8 * j) ∧ Carries f (8 * j + 7)

/-- What is in the buffers of reassembly after the fragments `fs` of one packet. -/
structure Holds (r : Reass) (fs : List Mem) : Prop where
  mapped : ∀ f ∈ fs, Mapped f
  same : ∀ f ∈ fs, sameFragment f r
  covered : ∀ j < 120, Covered r.bitmap j ↔ HasBlock fs j
  received : ∀ x, (∃ f ∈ fs, Carries f x) → ∃ f ∈ fs, Carries f x ∧ r.buf (20 + x) = byteAt f x
  last : packetLen fs = if r.lastfrag then some r.len.toNat else none

theorem sameFragment_congr {b : Mem} {r r' : Reass} (h : ∀ x < 20, r'.buf x = r.buf x) :
    sameFragment b r' ↔ sameFragment b r := by
  unfold sameFragment IpAddr.load Mem.get16
  rw [h 4 (by decide), h 5 (by decide), h 12 (by decide), h 13 (by decide), h 14 (by decide),
    h 15 (by decide), h 16 (by decide), h 17 (by decide), h 18 (by decide), h 19 (by decide)]

theorem reassStart_holds {r : Reass} (h : r.tmr = 0) (b : Mem) : Holds (reassStart b r) [] := by
  unfold reassStart
  rw [if_pos h]
  constructor
  · intro f hf
    cases hf
  · intro f hf
    cases hf
  · intro j hj
    refine iff_of_false (covered_clear r.bitmap hj) ?_
    rintro ⟨f, hf, -⟩
    cases hf
  · rintro x ⟨f, hf, -⟩
    cases hf
  · rfl

theorem reassStore_byte {b : Mem} (hb : b 14 = 0x45) (r : Reass) (x : Nat) :
    (reassStore b r).buf (20 + x) =
      if (fragOffset b).toNat ≤ x ∧ x < (fragOffset b).toNat + (fragLen b).toNat then byteAt b x
      else r.buf (20 + x) := by
  have hhdr : ((b 14 &&& 0x0f) * 4).toUInt16.toNat = 20 := by
    rw [hb]
    rfl
  rw [reassStore_buf, hhdr]
  split
  · next h =>
    obtain ⟨i, rfl⟩ := Nat.exists_eq_add_of_le h.1
    have hi : i < (b.read (14 + 20) (fragLen b).toNat).length := by
      rw [Mem.length_read]
      omega
    rw [← Nat.add_assoc, Mem.write_apply_add hi]
    unfold byteAt
    rw [Nat.add_sub_cancel_left]
    simp [Mem.read]
  · next h =>
    rcases Nat.lt_or_ge x (fragOffset b).toNat with hlt | hge
    · exact Mem.write_apply_of_lt (by omega)
    · refine Mem.write_apply_of_ge ?_
      rw [Mem.length_read]
      omega

/-- A fragment of the same packet joins the others. -/
theorem Holds.store {r : Reass} {fs : List Mem} (h : Holds r fs) {b : Mem} (hb : b 14 = 0x45)
    (hsame : sameFragment b r) (hmapped : Mapped b) : Holds (reassStore b r) (fs ++ [b]) := by
  have hend := hmapped.toNat_add
  have hheader : ∀ x < 20, (reassStore b r).buf x = r.buf x := by
    intro x hx
    rw [reassStore_buf]
    exact Mem.write_apply_of_lt (by omega)
  have hall {p : Mem → Prop} (hfs : ∀ f ∈ fs, p f) (hlast : p b) : ∀ f ∈ fs ++ [b], p f := by
    intro f hf
    rcases List.mem_append.mp hf with hf | hf
    · exact hfs f hf
    · rwa [List.mem_singleton.mp hf]
  constructor
  · exact hall h.mapped hmapped
  · refine hall (fun f hf => ?_) ?_
    · exact (sameFragment_congr hheader).mpr (h.same f hf)
    · exact (sameFragment_congr hheader).mpr hsame
  · intro j hj
    rw [reassStore_bitmap, covered_reassMark hend (by omega) j, h.covered j hj]
    have hmod := fragOffset_mod b
    have hblock : (fragOffset b).toNat / 8 ≤ j ∧
          j < ((fragOffset b).toNat + (fragLen b).toNat) / 8 ↔
        Carries b (8 * j) ∧ Carries b (8 * j + 7) := by
      unfold Carries
      omega
    unfold HasBlock
    simp [hblock, or_and_right, exists_or]
  · rintro x ⟨f, hf, hx⟩
    by_cases hbx : Carries b x
    · refine ⟨b, by simp, hbx, ?_⟩
      rw [reassStore_byte hb]
      exact if_pos hbx
    · have hfs : f ∈ fs := by
        rcases List.mem_append.mp hf with hf | hf
        · exact hf
        · rw [List.mem_singleton.mp hf] at hx
          exact absurd hx hbx
      obtain ⟨g, hg, hgx, hbyte⟩ := h.received x ⟨f, hfs, hx⟩
      refine ⟨g, List.mem_append_left _ hg, hgx, ?_⟩
      rw [reassStore_byte hb, ← hbyte]
      exact if_neg hbx
  · have hlast := h.last
    unfold packetLen at hlast ⊢
    rw [List.filter_append]
    unfold reassStore
    dsimp only
    split
    · next hmf =>
      have hfilter : [b].filter (fun f => LastFragment f) = [b] := by
        simp [LastFragment, hmf]
      rw [hfilter, List.getLast?_append]
      simp [hend]
    · next hmf =>
      have hfilter : [b].filter (fun f => LastFragment f) = [] := by
        simp [LastFragment, hmf]
      rw [hfilter, List.append_nil]
      exact hlast

/-! ### The test for the end of the packet -/

theorem eq_of_bitAt {v w : UInt8} (h : ∀ k < 8, bitAt v k = bitAt w k) : v = w := by
  apply UInt8.toBitVec_inj.mp
  apply BitVec.eq_of_getLsbD_eq
  intro i hi
  have hk := h (7 - i) (by omega)
  unfold bitAt at hk
  rwa [show 7 - (7 - i) = i by omega] at hk

/-- The bits of the 64 bytes before the last ones are not looked at. -/
theorem reassComplete_iff {bitmap : Mem} {len : UInt16} : reassComplete bitmap len = true ↔
    64 ≤ len.toNat ∧ (∀ j, j / 8 + 1 < len.toNat / 64 → Covered bitmap j) ∧
      ∀ j, j / 8 = len.toNat / 64 → (Covered bitmap j ↔ j < len.toNat / 8) := by
  have hunits : (len / 64).toNat = len.toNat / 64 := UInt16.toNat_div ..
  have hblocks : (len / 8).toNat = len.toNat / 8 := UInt16.toNat_div ..
  have hlast (k : Nat) (hk : k < 8) :
      bitAt (~~~bitmapBits (len / 8)) k = !decide (len.toNat / 8 % 8 ≤ k) := by
    rw [bitAt_not, bitAt_bitmapBits _ hk, hblocks]
  unfold reassComplete
  simp only [Bool.and_eq_true, List.all_eq_true, List.mem_range, beq_iff_eq, hunits]
  rcases Nat.lt_or_ge len.toNat 64 with hlt | hge
  · -- The index runs over all 16 bits, and the first byte cannot be full and the last one.
    refine iff_of_false ?_ (fun h => absurd h.1 (by omega))
    rintro ⟨hall, hend⟩
    have hzero : len / 64 = 0 := by
      apply UInt16.toNat_inj.mp
      rw [hunits]
      exact Nat.div_eq_of_lt hlt
    have hfull := hall 0 (by rw [hzero]; decide)
    have hempty := hlast 7 (by decide)
    rw [show len.toNat / 64 = 0 by omega, hfull] at hend
    rw [← hend, bitAt_ones] at hempty
    have hle : len.toNat / 8 % 8 ≤ 7 := by omega
    simp [hle] at hempty
  · have hle : (1 : UInt16) ≤ len / 64 := by
      rw [UInt16.le_iff_toNat_le, hunits]
      exact Nat.div_pos hge (by decide)
    have hone : (1 : UInt16).toNat = 1 := rfl
    rw [UInt16.toNat_sub_of_le _ _ hle, hunits, hone]
    constructor
    · rintro ⟨hall, hend⟩
      refine ⟨hge, ?_, ?_⟩
      · intro j hj
        unfold Covered
        rw [hall (j / 8) (by omega), bitAt_ones]
      · intro j hj
        unfold Covered
        rw [hj, hend, hlast _ (Nat.mod_lt _ (by decide))]
        simp only [Bool.not_eq_true', decide_eq_false_iff_not]
        omega
    · rintro ⟨-, hall, hend⟩
      constructor
      · intro i hi
        apply eq_of_bitAt
        intro k hk
        have hcovered := hall (8 * i + k) (by omega)
        unfold Covered at hcovered
        rwa [show (8 * i + k) / 8 = i by omega, show (8 * i + k) % 8 = k by omega,
          ← bitAt_ones k] at hcovered
      · apply eq_of_bitAt
        intro k hk
        have hcovered := hend (8 * (len.toNat / 64) + k) (by omega)
        unfold Covered at hcovered
        rw [show (8 * (len.toNat / 64) + k) / 8 = len.toNat / 64 by omega,
          show (8 * (len.toNat / 64) + k) % 8 = k by omega] at hcovered
        rw [hlast k hk, Bool.eq_iff_iff, hcovered]
        simp only [Bool.not_eq_true', decide_eq_false_iff_not]
        omega

/-! ### Runs -/

/-- The state of reassembly, and the fragments of the packet that it has taken. -/
structure Assembly where
  reass : Reass
  fragments : List Mem

/-- A fragment in `uip_buf`, or a call for the timer. -/
inductive Arrival
  | fragment (b : Mem)
  | tick

/-- The fragments of the packet with the one in `b`. -/
def Assembly.fragmentsWith (s : Assembly) (b : Mem) : List Mem :=
  let fs := if s.reass.tmr = 0 then [] else s.fragments
  if Taken b s.reass then fs ++ [b] else fs

/-- One arrival. -/
def assemble (s : Assembly) : Arrival → Assembly
  | .fragment b => ⟨(uipReass b s.reass).2.2, s.fragmentsWith b⟩
  | .tick =>
    let r := s.reass
    { s with reass := if r.tmr ≠ 0 then { r with tmr := r.tmr - 1 } else r }

/-- The arrival is as `uip_process` takes it: the IP header of a fragment has no options, and
`uip_reass` stays in its arrays. -/
def Arrival.Stays (s : Assembly) : Arrival → Prop
  | .fragment b => b 14 = 0x45 ∧ ¬ReassOverruns b s.reass
  | .tick => True

/-- While a packet is under reassembly, its fragments are in the buffers. -/
def Assembled (s : Assembly) : Prop := s.reass.tmr ≠ 0 → Holds s.reass s.fragments

theorem Assembled.start {s : Assembly} (h : Assembled s) (b : Mem) :
    Holds (reassStart b s.reass) (if s.reass.tmr = 0 then [] else s.fragments) := by
  split
  · next htmr => exact reassStart_holds htmr b
  · next htmr =>
    have hr : reassStart b s.reass = s.reass := if_neg htmr
    rw [hr]
    exact h htmr

theorem Assembled.store {s : Assembly} (h : Assembled s) {b : Mem}
    (hb : Arrival.Stays s (.fragment b)) (htaken : Taken b s.reass) :
    Holds (reassStore b (reassStart b s.reass)) (s.fragmentsWith b) := by
  unfold Assembly.fragmentsWith
  rw [if_pos htaken]
  exact (h.start b).store hb.1 htaken.1 (mapped_of_taken hb.2 htaken)

theorem Holds.of_tmr {r : Reass} {fs : List Mem} (h : Holds r fs) (t : UInt8) :
    Holds { r with tmr := t } fs := ⟨h.mapped, h.same, h.covered, h.received, h.last⟩

theorem assemble_assembled {s : Assembly} (h : Assembled s) {a : Arrival} (hb : a.Stays s) :
    Assembled (assemble s a) := by
  cases a with
  | fragment b =>
    by_cases htaken : Taken b s.reass
    · intro htmr
      have hstore := h.store hb htaken
      unfold assemble at htmr ⊢
      dsimp only at htmr ⊢
      rw [uipReass_of_taken htaken] at htmr ⊢
      split at htmr
      · exact absurd rfl htmr
      · next hnot =>
        rw [if_neg hnot]
        exact hstore
    · intro htmr
      unfold assemble Assembly.fragmentsWith at htmr ⊢
      dsimp only at htmr ⊢
      rw [if_neg htaken]
      rcases (uipReass_of_not_taken htaken).2 with hr | hr
      · rw [hr]
        exact h.start b
      · exact absurd hr htmr
  | tick =>
    intro htmr
    unfold assemble at htmr ⊢
    dsimp only at htmr ⊢
    split at htmr
    · next hpos =>
      rw [if_pos hpos]
      exact (h hpos).of_tmr _
    · next hzero => exact absurd htmr hzero

theorem run_assembled {r : Reass} (hr : r.tmr = 0) {as : List Arrival}
    (has : Along assemble (fun s a => a.Stays s) ⟨r, []⟩ as) :
    Assembled (run assemble ⟨r, []⟩ as) :=
  has.invariant (P := Assembled) (fun _ _ h ha => assemble_assembled h ha)
    fun htmr => absurd hr htmr

/-! ### The packet that is handed on -/

theorem write_two_of_ne {m : Mem} {a x : Nat} {bs : List UInt8} (hbs : bs.length = 2)
    (h : x < a ∨ a + 2 ≤ x) : m.write a bs x = m x := by
  rcases h with h | h
  · exact Mem.write_apply_of_lt h
  · exact Mem.write_apply_of_ge (by omega)

theorem reassCopy_ipLen (b : Mem) (r : Reass) : ipLen (reassCopy b r) = r.len :=
  ipLen_of_bytes rfl rfl

/-- The copy changes the length, the place and the checksum in the header. -/
theorem reassCopy_byte (b : Mem) (r : Reass) {x : Nat} (hx : x < r.len.toNat)
    (h : x = 4 ∨ x = 5 ∨ 12 ≤ x) : reassCopy b r (14 + x) = r.buf x := by
  have hlt : x < (r.buf.read 0 r.len.toNat).length := by
    rw [Mem.length_read]
    exact hx
  unfold reassCopy
  rw [write_two_of_ne rfl (by omega), write_two_of_ne rfl (by omega),
    write_two_of_ne rfl (by omega), write_two_of_ne rfl (by omega), Mem.write_apply_add hlt]
  simp [Mem.read]

/-- The packet in `m` is that of the fragment in `f`. -/
def SamePacket (f m : Mem) : Prop :=
  IpAddr.load f 26 = IpAddr.load m 26 ∧ IpAddr.load f 30 = IpAddr.load m 30 ∧
    f 18 = m 18 ∧ f 19 = m 19

instance (f m : Mem) : Decidable (SamePacket f m) := inferInstanceAs (Decidable (_ ∧ _))

theorem samePacket_reassCopy {f b : Mem} {r : Reass} (h : sameFragment f r)
    (hlen : 20 ≤ r.len.toNat) : SamePacket f (reassCopy b r) := by
  have hbyte (x : Nat) (hx : x < 20) (h : x = 4 ∨ x = 5 ∨ 12 ≤ x) :
      reassCopy b r (14 + x) = r.buf x := reassCopy_byte b r (by omega) h
  have hload (x : Nat) (hx : x + 4 ≤ 20) (h : 12 ≤ x) :
      IpAddr.load (reassCopy b r) (14 + x) = IpAddr.load r.buf x := by
    unfold IpAddr.load Mem.get16
    simp only [Nat.add_assoc]
    rw [hbyte x (by omega) (by omega), hbyte (x + 1) (by omega) (by omega),
      hbyte (x + 2) (by omega) (by omega), hbyte (x + (2 + 1)) (by omega) (by omega)]
  obtain ⟨hsrc, hdest, h4, h5⟩ := h
  exact ⟨hsrc.trans (hload 12 (by decide) (by decide)).symm,
    hdest.trans (hload 16 (by decide) (by decide)).symm,
    h4.trans (hbyte 4 (by decide) (by decide)).symm,
    h5.trans (hbyte 5 (by decide) (by decide)).symm⟩

theorem Holds.of_complete {r : Reass} {fs : List Mem} (h : Holds r fs)
    (hcomplete : reassComplete r.bitmap r.len = true) (hlt : r.len.toNat < 960) {x : Nat}
    (hx : x + 20 < r.len.toNat) (hchecked : x / 64 + 1 ≠ r.len.toNat / 64) :
    ∃ f ∈ fs, Carries f x ∧ r.buf (20 + x) = byteAt f x := by
  obtain ⟨-, hbefore, hlast⟩ := reassComplete_iff.mp hcomplete
  have hcovered : Covered r.bitmap (x / 8) := by
    rcases Nat.lt_or_ge (x / 64) (r.len.toNat / 64) with hlt | hge
    · exact hbefore (x / 8) (by omega)
    · exact (hlast (x / 8) (by omega)).mpr (by omega)
  obtain ⟨f, hf, hfrom, hto⟩ := (h.covered (x / 8) (by omega)).mp hcovered
  refine h.received x ⟨f, hf, ?_⟩
  unfold Carries at hfrom hto ⊢
  omega

theorem Holds.len_lt {r : Reass} {fs : List Mem} (h : Holds r fs) (hlast : r.lastfrag = true) :
    r.len.toNat < 960 := by
  have hlen := h.last
  rw [if_pos hlast] at hlen
  obtain ⟨f, hf, hend⟩ := Option.map_eq_some_iff.mp hlen
  rw [← hend]
  exact h.mapped f (List.mem_filter.mp (List.mem_of_getLast? hf)).1

/-- A packet that `uip_reass` hands on after any arrivals, as long as it stays in its arrays, has at
least 64 bytes and less than 960.  Its fragments all have its addresses and its number; and each
byte behind the header, but for the 64 that the test leaves out, is the byte that one of them has
for its place. -/
theorem reassembled_received (r : Reass) (hr : r.tmr = 0) (as : List Arrival)
    (has : Along assemble (fun s a => a.Stays s) ⟨r, []⟩ as) (b : Mem)
    (hb : Arrival.Stays (run assemble ⟨r, []⟩ as) (.fragment b))
    (hhands : (uipReass b (run assemble ⟨r, []⟩ as).reass).1 ≠ 0) :
    let s := run assemble ⟨r, []⟩ as
    let packet := (uipReass b s.reass).2.1
    let n := (ipLen packet).toNat
    64 ≤ n ∧ n < 960 ∧ (∀ f ∈ s.fragmentsWith b, SamePacket f packet) ∧
      ∀ x, x + 20 < n → x / 64 + 1 ≠ n / 64 →
        ∃ f ∈ s.fragmentsWith b, Carries f x ∧ packet (34 + x) = byteAt f x := by
  dsimp only
  have hrun := run_assembled hr has
  generalize run assemble ⟨r, []⟩ as = s at hb hhands hrun ⊢
  have htaken : Taken b s.reass := by
    by_contra hnot
    exact hhands (uipReass_of_not_taken hnot).1
  have hstore := hrun.store hb htaken
  rw [uipReass_of_taken htaken] at hhands ⊢
  split at hhands
  · next hcomplete =>
    rw [if_pos hcomplete]
    dsimp only
    rw [reassCopy_ipLen]
    have h64 := (reassComplete_iff.mp hcomplete.2).1
    have hlt := hstore.len_lt hcomplete.1
    refine ⟨h64, hlt, ?_, ?_⟩
    · intro f hf
      exact samePacket_reassCopy (hstore.same f hf) (by omega)
    · intro x hx hchecked
      obtain ⟨f, hf, hfx, hbyte⟩ := hstore.of_complete hcomplete.2 hlt hx hchecked
      refine ⟨f, hf, hfx, ?_⟩
      rw [← hbyte, ← reassCopy_byte b _ (by omega) (by omega), ← Nat.add_assoc]
  · exact absurd rfl hhands

/-- The first 128 bytes of a packet. -/
def firstFragment : Mem :=
  .ofList (List.replicate 14 0 ++
    [0x45, 0, 0, 148, 0, 7, 0x20, 0, 64, 17, 0, 0, 10, 0, 0, 1, 10, 0, 0, 2] ++
    List.replicate 128 0x11)

/-- The other 72 bytes. -/
def secondFragment : Mem :=
  .ofList (List.replicate 14 0 ++
    [0x45, 0, 0, 92, 0, 7, 0, 16, 64, 17, 0, 0, 10, 0, 0, 1, 10, 0, 0, 2] ++
    List.replicate 72 0x22)

/-- No packet is under reassembly. -/
def noPacket : Reass := ⟨fun _ => 0, fun _ => 0, 0, false, 0⟩

theorem firstFragment_stays :
    Along assemble (fun s a => a.Stays s) ⟨noPacket, []⟩ [.fragment firstFragment] :=
  ⟨⟨rfl, by decide +kernel⟩, trivial⟩

theorem secondFragment_stays :
    Arrival.Stays (run assemble ⟨noPacket, []⟩ [.fragment firstFragment])
      (.fragment secondFragment) := ⟨rfl, by decide +kernel⟩

theorem reassembled_received_two :
    let s := run assemble ⟨noPacket, []⟩ [.fragment firstFragment]
    let packet := (uipReass secondFragment s.reass).2.1
    let n := (ipLen packet).toNat
    (uipReass secondFragment s.reass).1 ≠ 0 ∧ 64 ≤ n ∧ n < 960 ∧
      (∀ f ∈ s.fragmentsWith secondFragment, SamePacket f packet) ∧
      ∀ x, x + 20 < n → x / 64 + 1 ≠ n / 64 →
        ∃ f ∈ s.fragmentsWith secondFragment, Carries f x ∧ packet (34 + x) = byteAt f x := by
  have hhands : (uipReass secondFragment
      (run assemble ⟨noPacket, []⟩ [.fragment firstFragment]).reass).1 ≠ 0 := by
    decide +kernel
  exact ⟨hhands, reassembled_received noPacket rfl [.fragment firstFragment]
    firstFragment_stays secondFragment secondFragment_stays hhands⟩

end OpenPLC
