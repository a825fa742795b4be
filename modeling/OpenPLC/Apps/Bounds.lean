import OpenPLC.Apps.Exchange

/-! The bytes that `parse_msg` reads.  The end that `parse_options` looks for is the length of the
datagram after the start of the options, which lies past the end of the datagram unless the sum
wraps around, and the loop looks at neither the length of an option nor the end of the datagram
before it reads a value. -/

namespace OpenPLC

open Lib

namespace Dhcpc

/-- The number of value bytes that `parse_options` reads of an option. -/
def valueLen (kind : UInt8) : Nat :=
  if kind = 1 ∨ kind = 3 ∨ kind = 6 ∨ kind = 51 ∨ kind = 54 then 4 else if kind = 53 then 1 else 0

/-- The addresses that the loop of `parse_options` reads. -/
def optionReads (m : Mem) (end_ : Nat) : Nat → Nat → List Nat
  | 0, _ => []
  | fuel + 1, optptr =>
    if optptr < end_ then
      if m optptr = 255 then [optptr]
      else
        optptr :: (List.range' (optptr + 1) (valueLen (m optptr) + 1) ++
          optionReads m end_ fuel (optptr + (m (optptr + 1)).toNat + 2))
    else []

/-- The pointer with which the loop stops. -/
def optionStop (m : Mem) (end_ : Nat) : Nat → Nat → Nat
  | 0, optptr => optptr
  | fuel + 1, optptr =>
    if optptr < end_ then
      if m optptr = 255 then optptr
      else optionStop m end_ fuel (optptr + (m (optptr + 1)).toNat + 2)
    else optptr

/-- A byte is read as a part of an option, or to find END. -/
theorem mem_optionReads {m : Mem} {end_ fuel optptr : Nat} (hfuel : end_ ≤ optptr + fuel)
    {a : Nat} :
    a ∈ optionReads m end_ fuel optptr ↔
      (∃ p ∈ optionPtrs m end_ fuel optptr, p ≤ a ∧ a < p + 2 + valueLen (m p)) ∨
        a = optionStop m end_ fuel optptr ∧ a < end_ := by
  induction fuel generalizing optptr with
  | zero =>
    simp only [optionReads, optionPtrs, optionStop, List.not_mem_nil, false_and, exists_false,
      false_or, false_iff]
    omega
  | succ fuel ih =>
    simp only [optionReads, optionPtrs, optionStop]
    split
    · split
      · simp only [List.mem_singleton, List.not_mem_nil, false_and, exists_false, false_or]
        omega
      · have ih' := @ih (optptr + (m (optptr + 1)).toNat + 2) (by omega)
        simp only [List.mem_cons, List.mem_append, List.mem_range'_1, ih', exists_eq_or_imp,
          ← or_assoc]
        refine or_congr (or_congr ?_ .rfl) .rfl
        omega
    · simp only [List.not_mem_nil, false_and, exists_false, false_or, false_iff]
      omega

theorem parseOption_congr {m m' : Mem} {p : Nat}
    (h : ∀ a, p ≤ a → a < p + 2 + valueLen (m p) → m' a = m a)
    (s : Client) (type : UInt8) : parseOption m' p s type = parseOption m p s type := by
  have hcode : m' p = m p := h p le_rfl (by omega)
  have hload (h4 : valueLen (m p) = 4) : IpAddr.load m' (p + 2) = IpAddr.load m (p + 2) ∧
      Quad.load m' (p + 2) = Quad.load m (p + 2) := by
    have h2 := h (p + 2) (by omega) (by omega)
    have h3 := h (p + 2 + 1) (by omega) (by omega)
    have h4 := h (p + 2 + 2) (by omega) (by omega)
    have h5 := h (p + 2 + 3) (by omega) (by omega)
    simp only [IpAddr.load, Quad.load, Mem.get16, h2, h3, h4, h5, Nat.add_assoc, and_self]
  simp only [parseOption, hcode]
  split_ifs with h1 h3 h6 h53 h54 h51
  · rw [(hload (by simp [valueLen, h1])).1]
  · rw [(hload (by simp [valueLen, h3])).1]
  · rw [(hload (by simp [valueLen, h6])).1]
  · rw [h (p + 2) (by omega) (by simp [valueLen, h53])]
  · rw [(hload (by simp [valueLen, h54])).2]
  · rw [(hload (by simp [valueLen, h51])).1]
  · rfl

theorem parseOptions_congr {m m' : Mem} {len end_ fuel optptr : Nat} (h : ∀ a < len, m' a = m a)
    (hptrs : ∀ p ∈ optionPtrs m end_ fuel optptr, p + 2 + valueLen (m p) ≤ len)
    (hstop : optionStop m end_ fuel optptr < len ∨ end_ ≤ optionStop m end_ fuel optptr)
    (s : Client) (type : UInt8) :
    parseOptions m' end_ fuel optptr s type = parseOptions m end_ fuel optptr s type := by
  induction fuel generalizing optptr s type with
  | zero => rfl
  | succ fuel ih =>
    simp only [optionPtrs, optionStop] at hptrs hstop
    simp only [parseOptions]
    by_cases hlt : optptr < end_
    · rw [if_pos hlt] at hptrs hstop
      simp only [hlt, ↓reduceIte]
      by_cases hend : m optptr = 255
      · rw [if_pos hend] at hstop
        rw [h optptr (by omega), if_pos hend, if_pos hend]
      · rw [if_neg hend] at hptrs hstop
        have hptr := hptrs optptr List.mem_cons_self
        rw [h optptr (by omega), h (optptr + 1) (by omega), if_neg hend, if_neg hend,
          parseOption_congr (fun a _ ha => h a (by omega))]
        exact ih (fun p hp => hptrs p (List.mem_cons_of_mem _ hp)) hstop _ _
    · simp only [hlt, ↓reduceIte]

namespace Datagram

/-- The pointers to the options that `parse_options` visits. -/
def ptrs (d : Datagram) : List Nat := optionPtrs d.mem d.end_ d.len.toNat 240

/-- The pointer with which `parse_options` stops. -/
def stop (d : Datagram) : Nat := optionStop d.mem d.end_ d.len.toNat 240

/-- The code, the length, and the bytes of the value that are used of every option lie in the
datagram, and the options end with an END in the datagram, or with a length that leads past the end
that the loop looks for. -/
structure Inside (d : Datagram) : Prop where
  pos : 0 < d.len.toNat
  options : ∀ p ∈ d.ptrs, p + 2 + valueLen (d.mem p) ≤ d.len.toNat
  stop : d.stop < d.len.toNat ∨ d.end_ ≤ d.stop

/-- `parse_options` reads only bytes of the datagram. -/
def ReadsInside (d : Datagram) : Prop :=
  ∀ a ∈ optionReads d.mem d.end_ d.len.toNat 240, a < d.len.toNat

/-- What `parse_msg` returns and stores does not depend on the bytes after the datagram. -/
def Interprets (d : Datagram) (s : Client) : Prop :=
  ∀ m : Mem, (∀ i < d.len.toNat, m i = d.mem i) → parseMsg ⟨m, d.len⟩ s = parseMsg d s

variable {d : Datagram} {s : Client}

/-- The end lies behind the datagram, or it wraps around. -/
theorem end_eq (d : Datagram) :
    d.end_ = 240 + d.len.toNat ∨ d.end_ < 240 ∧ 240 ≤ d.len.toNat := by
  have h240 : (240 : UInt16).toNat = 240 := rfl
  have hlt := d.len.toNat_lt
  unfold end_
  rw [UInt16.toNat_add, h240]
  omega

theorem readsInside_iff : d.ReadsInside ↔
    (∀ p ∈ d.ptrs, p + 2 + valueLen (d.mem p) ≤ d.len.toNat) ∧
      (d.stop < d.len.toNat ∨ d.end_ ≤ d.stop) := by
  have hfuel : d.end_ ≤ 240 + d.len.toNat := by
    have := d.end_eq
    omega
  simp only [ReadsInside, mem_optionReads hfuel]
  constructor
  · intro h
    refine ⟨fun p hp => ?_, ?_⟩
    · have := h (p + 1 + valueLen (d.mem p)) (.inl ⟨p, hp, by omega, by omega⟩)
      omega
    · by_contra hnot
      have := h d.stop (.inr ⟨rfl, by omega⟩)
      omega
  · rintro ⟨hptrs, hstop⟩ a (⟨p, hp, -, ha⟩ | ⟨rfl, ha⟩)
    · have := hptrs p hp
      omega
    · change d.stop < _ at ha
      change d.stop < _
      omega

theorem Inside.header (h : d.Inside) : 240 ≤ d.len.toNat := by
  rcases d.end_eq with hend | ⟨-, hlen⟩
  · obtain ⟨n, hn⟩ := Nat.exists_eq_add_of_lt h.pos
    have hlen : d.len.toNat = n + 1 := by omega
    have hlt : 240 < 240 + (n + 1) := by omega
    by_cases hfirst : d.mem 240 = 255
    · have hstop : d.stop = 240 := by simp [Datagram.stop, optionStop, hend, hlen, hfirst]
      have := h.stop
      omega
    · have hptr : 240 ∈ d.ptrs := by simp [ptrs, optionPtrs, hend, hlen, hfirst]
      have := h.options 240 hptr
      omega
  · exact hlen

/-- A datagram whose options lie in it is interpreted from its own bytes. -/
theorem Inside.interprets (h : d.Inside) (s : Client) : d.Interprets s := by
  intro m hm
  have hlen := h.header
  have hread (a n : Nat) (ha : a + n ≤ 240) : m.read a n = d.mem.read a n :=
    Mem.read_congr fun i hi => hm (a + i) (by omega)
  have hmatches : Datagram.Matches ⟨m, d.len⟩ s.mac ↔ d.Matches s.mac := by
    have hmac := s.length_mac
    simp only [Matches, hm 0 (by omega), hread 4 4 (by omega), hread 28 s.mac.length (by omega)]
  have hyiaddr : Datagram.yiaddr ⟨m, d.len⟩ = d.yiaddr := by
    simp only [yiaddr, IpAddr.load, Mem.get16, hm 16 (by omega), hm 17 (by omega), hm 18 (by omega),
      hm 19 (by omega)]
  simp only [parseMsg, hmatches, hyiaddr]
  split
  · exact parseOptions_congr hm h.options h.stop _ _
  · rfl

theorem Interprets.pos (h : d.Interprets s) (hd : d.Matches s.mac) : 0 < d.len.toNat := by
  by_contra hzero
  have hlen : d.len.toNat = 0 := by omega
  -- another byte of `yiaddr` is stored as well
  let m : Mem := Function.update d.mem 16 (d.mem 16 + 1)
  have hother {i : Nat} (hi : i ≠ 16) : m i = d.mem i := Function.update_of_ne hi ..
  have hmatches : Datagram.Matches ⟨m, d.len⟩ s.mac := by
    have hmac := s.length_mac
    refine ⟨(hother (by decide)).trans hd.1, ?_, ?_⟩
    · exact (Mem.read_congr fun i hi => hother (by omega)).trans hd.2.1
    · exact (Mem.read_congr fun i hi => hother (by omega)).trans hd.2.2
  have hsame : Datagram.yiaddr ⟨m, d.len⟩ = d.yiaddr := by
    have hip := congrArg (fun r : Client × UInt8 => r.1.ipaddr) (h m fun i hi => by omega)
    rwa [parseMsg_of_matches hmatches, parseMsg_of_matches hd] at hip
  have hbytes := congrArg IpAddr.bytes hsame
  simp only [yiaddr, IpAddr.bytes_load] at hbytes
  have hhead : m 16 = d.mem 16 := congrArg List.head! hbytes
  simp [m] at hhead

/-- A datagram that passes the checks of `parse_msg` is interpreted from its own bytes, and no other
byte is read for its options, if and only if its options lie in it. -/
theorem interprets_iff (hd : d.Matches s.mac) : d.ReadsInside ∧ d.Interprets s ↔ d.Inside := by
  constructor
  · rintro ⟨hreads, hown⟩
    obtain ⟨hptrs, hstop⟩ := readsInside_iff.mp hreads
    exact ⟨hown.pos hd, hptrs, hstop⟩
  · intro h
    exact ⟨readsInside_iff.mpr ⟨h.options, h.stop⟩, h.interprets s⟩

/-- The memory with the fixed header of a reply to a client whose address is zero, and an option
area after it. -/
def replyMem (options : List UInt8) : Mem :=
  .ofList ([2, 0, 0, 0] ++ xid ++ List.replicate 232 0 ++ options)

/-- A message type and END. -/
theorem interprets_iff_ack :
    let d : Datagram := ⟨replyMem [53, 1, 5, 255], 244⟩
    d.ReadsInside ∧ d.Interprets (.zero (List.replicate 6 0) rfl) := by
  intro d
  exact (interprets_iff (s := .zero (List.replicate 6 0) rfl) (by decide +kernel)).mpr
    ⟨by decide, by decide +kernel, by decide +kernel⟩

/-- Without options, the bytes after the datagram are taken for options. -/
theorem not_interprets :
    let s : Client := .zero (List.replicate 6 0) rfl
    let d : Datagram := ⟨replyMem [], 240⟩
    let m : Mem := replyMem [53, 1, 5, 255]
    d.Matches s.mac ∧ (∀ i < d.len.toNat, m i = d.mem i) ∧ (parseMsg d s).2 = 0 ∧
      (parseMsg ⟨m, d.len⟩ s).2 = 5 ∧ ¬(d.ReadsInside ∧ d.Interprets s) := by
  intro s d m
  have hd : d.Matches s.mac := by decide +kernel
  have hm : ∀ i < d.len.toNat, m i = d.mem i := by decide +kernel
  have hnone : (parseMsg d s).2 = 0 := by decide +kernel
  have hack : (parseMsg ⟨m, d.len⟩ s).2 = 5 := by decide +kernel
  refine ⟨hd, hm, hnone, hack, fun h => ?_⟩
  have htype := congrArg Prod.snd (h.2 m hm)
  rw [hnone, hack] at htype
  cases htype

end Datagram

end Dhcpc

end OpenPLC
