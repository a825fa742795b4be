import OpenPLC.Lib.OnesComplement
import OpenPLC.Uip.Demux
import OpenPLC.Uip.Protocol

/-! The checksums of the packets that `uip_process` leaves.  The code adds up words with the carry
added back in, so a check succeeds when the words sum up to a multiple of `2 ^ 16 - 1`; and a sum
that is stored with all bits inverted makes it succeed. -/

namespace OpenPLC

open Lib OnesComplement

/-! ### The sums -/

theorem toNat_word (a b : UInt8) :
    ((a.toUInt16 <<< 8) + b.toUInt16).toNat = a.toNat * 256 + b.toNat := by
  have ha := a.toNat_lt
  have hb := b.toNat_lt
  rw [UInt16.toNat_add, UInt16.toNat_shiftLeft, UInt8.toNat_toUInt16, UInt8.toNat_toUInt16]
  have h8 : (8 : UInt16).toNat % 16 = 8 := rfl
  rw [h8, Nat.shiftLeft_eq]
  omega

theorem toNat_chksumAdd (s t : UInt16) : (chksumAdd s t).toNat = fold (s.toNat + t.toNat) :=
  toNat_add_carry s t

theorem toNat_chksum (s : UInt16) (bs : List UInt8) :
    (chksum s bs).toNat = fold (s.toNat + wordSum bs) := by
  induction bs using wordSum.induct generalizing s with
  | case1 => exact (fold_of_lt s.toNat_lt).symm
  | case2 a =>
    have hword := toNat_word a 0
    have h0 : (0 : UInt8).toUInt16 = 0 := by decide
    have h0' : (0 : UInt8).toNat = 0 := by decide
    rw [h0, UInt16.add_zero, h0', Nat.add_zero] at hword
    rw [chksum, toNat_chksumAdd, hword, wordSum]
  | case3 a b bs ih =>
    rw [chksum, ih, toNat_chksumAdd, toNat_word, fold_add, wordSum, Nat.add_assoc]

theorem toNat_htons (v : UInt16) : (htons v).toNat = v.toNat % 256 * 256 + v.toNat / 256 := by
  have hv := v.toNat_lt
  have h8 : (8 : UInt16).toNat % 16 = 8 := rfl
  have hor : v.toNat % 256 * 256 ||| v.toNat / 256 = v.toNat % 256 * 256 + v.toNat / 256 := by
    have hlt : v.toNat / 256 < 2 ^ 8 := by omega
    have hadd := Nat.two_pow_add_eq_or_of_lt hlt (v.toNat % 256)
    rw [Nat.mul_comm] at hadd
    exact hadd.symm
  unfold htons
  rw [UInt16.toNat_or, UInt16.toNat_shiftLeft, UInt16.toNat_shiftRight, h8, Nat.shiftLeft_eq,
    Nat.shiftRight_eq_div_pow, ← hor]
  congr 1
  omega

theorem htons_htons (v : UInt16) : htons (htons v) = v := by
  have hv := v.toNat_lt
  apply UInt16.toNat_inj.mp
  rw [toNat_htons, toNat_htons]
  omega

/-- The two bytes of a number that was turned around are its bytes from the highest on. -/
theorem wordSum_htons (v : UInt16) : wordSum (le16 (htons v)) = v.toNat := by
  have hv := v.toNat_lt
  have h8 : (8 : UInt16).toNat % 16 = 8 := rfl
  have hlo : (v.toNat % 256 * 256 + v.toNat / 256) % 256 = v.toNat / 256 := by omega
  have hhi : (v.toNat % 256 * 256 + v.toNat / 256) / 256 = v.toNat % 256 := by omega
  rw [le16, wordSum_pair, UInt16.toNat_toUInt8, UInt16.toNat_toUInt8, UInt16.toNat_shiftRight,
    toNat_htons, h8, Nat.shiftRight_eq_div_pow]
  simp only [Nat.reducePow, hlo, hhi, Nat.mod_mod]
  omega

theorem wordSum_le16 (v : UInt16) : wordSum (le16 v) = v.toNat % 256 * 256 + v.toNat / 256 := by
  rw [← toNat_htons, ← wordSum_htons, htons_htons]

theorem htons_not (v : UInt16) : htons (~~~v) = ~~~htons v := by
  have hv := v.toNat_lt
  apply UInt16.toNat_inj.mp
  have hsize : UInt16.size = 65536 := rfl
  rw [toNat_htons, UInt16.toNat_not, UInt16.toNat_not, toNat_htons, hsize]
  omega

/-! ### The checks -/

theorem checks_toNat {v : UInt16} : Checks v.toNat ↔ v = 0 ∨ v = 0xffff := by
  have hv := v.toNat_lt
  have h0 : (0 : UInt16).toNat = 0 := rfl
  have h1 : (0xffff : UInt16).toNat = 65535 := rfl
  unfold Checks
  rw [← UInt16.toNat_inj, ← UInt16.toNat_inj, h0, h1]
  omega

theorem chksumResult_eq_iff {v : UInt16} : chksumResult v = 0xffff ↔ Checks v.toNat := by
  have hones : htons 0xffff = 0xffff := by decide
  rw [checks_toNat]
  unfold chksumResult
  split
  · next h => simp [h]
  · next h =>
    refine ⟨fun heq => .inr ?_, fun heq => ?_⟩
    · rw [← htons_htons v, heq, hones]
    · rw [heq.resolve_left h, hones]

theorem chksum_checks {s : UInt16} {bs : List UInt8} :
    chksumResult (chksum s bs) = 0xffff ↔ Checks (s.toNat + wordSum bs) := by
  rw [chksumResult_eq_iff, toNat_chksum]
  exact checks_fold_add (k := 0)

/-- A checksum that is stored with all bits inverted makes the check. -/
theorem checks_not_chksum (s : UInt16) (bs : List UInt8) :
    Checks (s.toNat + wordSum bs + wordSum (le16 (~~~chksumResult (chksum s bs)))) := by
  have hsum := toNat_chksum s bs
  unfold chksumResult
  split
  · next h =>
    have hzero : wordSum (le16 (~~~0xffff)) = 0 := by decide
    have h0 : (0 : UInt16).toNat = 0 := rfl
    rw [h, h0] at hsum
    rw [hzero, fold_eq_zero_iff.mp hsum.symm]
    decide
  · have hsize : UInt16.size - 1 = 65535 := rfl
    rw [← htons_not, wordSum_htons, UInt16.toNat_not, hsum, hsize]
    exact checks_add_not _

theorem ipchksum_eq_iff {b : Mem} : ipchksum b = 0xffff ↔ Checks (wordSum (b.read 14 20)) := by
  have h0 : (0 : UInt16).toNat = 0 := rfl
  unfold ipchksum
  rw [chksum_checks, h0, Nat.zero_add]

theorem upperLayer_eq {b : Mem} (h : 20 ≤ (ipLen b).toNat) :
    upperLayer b = b.read 34 ((ipLen b).toNat - 20) := by
  have h20 : (20 : UInt16).toNat = 20 := rfl
  have hle : (20 : UInt16) ≤ ipLen b := by rwa [UInt16.le_iff_toNat_le, h20]
  unfold upperLayer
  rw [if_neg (UInt16.not_lt.mpr hle), UInt16.toNat_sub_of_le _ _ hle, h20]

/-- The sum that `uip_tcpchksum` checks: the length, the protocol, the addresses, and the
segment. -/
def tcpSum (b : Mem) : Nat :=
  (ipLen b - 20 + 6).toNat + wordSum (b.read 26 8) + wordSum (upperLayer b)

theorem tcpchksum_eq_iff {b : Mem} : tcpchksum b = 0xffff ↔ Checks (tcpSum b) := by
  have h6 : (6 : UInt8).toUInt16 = 6 := by decide
  unfold tcpchksum upperLayerChksum tcpSum
  dsimp only
  rw [chksum_checks, toNat_chksum, h6]
  exact checks_fold_add

theorem ipchksum_write {b : Mem} (h : b.read 24 2 = [0, 0]) :
    ipchksum (b.write 24 (le16 (~~~ipchksum b))) = 0xffff := by
  have hsum := wordSum_write b 14 20 24 (le16 (~~~ipchksum b)) rfl
    (by decide) (by decide) (by decide)
  have hzero : wordSum [0, 0] = 0 := by decide
  rw [h, hzero, Nat.add_zero] at hsum
  rw [ipchksum_eq_iff, hsum, ← Nat.zero_add (wordSum (b.read 14 20))]
  exact checks_not_chksum 0 (b.read 14 20)

/-- The length field of a header, as two bytes. -/
theorem ipLen_of_bytes {b : Mem} {len : UInt16} (h16 : b 16 = (len >>> 8).toUInt8)
    (h17 : b 17 = len.toUInt8) : ipLen b = len := by
  have hlt := len.toNat_lt
  have h8 : (8 : UInt16).toNat % 16 = 8 := rfl
  apply UInt16.toNat_inj.mp
  unfold ipLen
  rw [toNat_word, h16, h17, UInt16.toNat_toUInt8, UInt16.toNat_toUInt8, UInt16.toNat_shiftRight, h8,
    Nat.shiftRight_eq_div_pow]
  simp only [Nat.reducePow]
  omega

theorem ipLen_congr {b b' : Mem} (h16 : b' 16 = b 16) (h17 : b' 17 = b 17) :
    ipLen b' = ipLen b := by
  unfold ipLen
  rw [h16, h17]

theorem tcpchksum_congr {b b' : Mem} (hlen : ipLen b' = ipLen b)
    (h : ∀ x, 26 ≤ x → x < 34 + (ipLen b - 20).toNat → b' x = b x) :
    tcpchksum b' = tcpchksum b := by
  have hread {a n : Nat} (ha : 26 ≤ a) (hn : a + n ≤ 34 + (ipLen b - 20).toNat) :
      b'.read a n = b.read a n := Mem.read_congr fun i _ => h _ (by omega) (by omega)
  unfold tcpchksum upperLayerChksum upperLayer
  dsimp only
  rw [hlen, hread (by decide) (by omega), hread (by decide) (by omega)]

theorem tcpchksum_write {b : Mem} (h : b.read 50 2 = [0, 0]) (hlen : 38 ≤ (ipLen b).toNat) :
    tcpchksum (b.write 50 (le16 (~~~tcpchksum b))) = 0xffff := by
  have hsum := wordSum_write b 34 ((ipLen b).toNat - 20) 50
    (le16 (~~~tcpchksum b)) rfl (by decide) (by omega) (by decide)
  have hzero : wordSum [0, 0] = 0 := by decide
  have hlength (v : UInt16) : (le16 v).length = 2 := rfl
  have hipLen : ipLen (b.write 50 (le16 (~~~tcpchksum b))) = ipLen b :=
    ipLen_congr (Mem.write_apply_of_lt (by decide)) (Mem.write_apply_of_lt (by decide))
  rw [h, hzero, Nat.add_zero] at hsum
  rw [tcpchksum_eq_iff]
  unfold tcpSum
  rw [upperLayer_eq (by rw [hipLen]; omega), hipLen, Mem.read_write_of_le (by decide), hsum,
    ← Nat.add_assoc, ← upperLayer_eq (by omega)]
  have hnot := checks_not_chksum (chksum (ipLen b - 20 + 6) (b.read 26 8)) (upperLayer b)
  have h6 : (6 : UInt8).toUInt16 = 6 := by decide
  rw [toNat_chksum, Nat.add_assoc, checks_fold_add, ← Nat.add_assoc] at hnot
  unfold tcpchksum upperLayerChksum
  rw [h6]
  exact hnot

/-! ### The packets -/

/-- The packet of `len` bytes in `b` is a TCP segment or a UDP datagram behind a header without
options, which says its length.  The check of the header succeeds, and the check of a segment. -/
structure WellFormed (b : Mem) (len : UInt16) : Prop where
  vhl : b 14 = 0x45
  length : ipLen b = len
  header : ipchksum b = 0xffff
  payload : b 23 = 6 ∧ 40 ≤ len ∧ tcpchksum b = 0xffff ∨ b 23 = 17 ∧ 28 ≤ len

/-- The packet in `b` is the answer to an echo request.  Before the stack has an address it answers
from 0.0.0.0, and leaves the checksum of the header as it was. -/
structure EchoReply (b : Mem) : Prop where
  proto : b 23 = 1
  type : b 34 = 0
  header : IpAddr.load b 26 ≠ .zeroes → ipchksum b = 0xffff

/-- The packet of `len` bytes in `b`, if there is one, fits the buffer, and its receiver can take
it.  The answer to an echo request that says a length without room for the message has none. -/
structure Fit (b : Mem) (len : UInt16) : Prop where
  le : len ≤ 1010
  packet : len ≤ 20 ∨ EchoReply b ∨ WellFormed b len

/-- Only the bytes of the packet matter. -/
theorem Fit.congr {b b' : Mem} {len : UInt16} (h : Fit b len)
    (hb : ∀ x, 14 ≤ x → x < 14 + len.toNat → b' x = b x) : Fit b' len := by
  refine ⟨h.le, ?_⟩
  by_cases hlen : len ≤ 20
  · exact .inl hlen
  have h20 : (20 : UInt16).toNat = 20 := rfl
  rw [UInt16.le_iff_toNat_le, h20] at hlen
  have hread {a n : Nat} (ha : 14 ≤ a) (hn : a + n ≤ 35) : b'.read a n = b.read a n :=
    Mem.read_congr fun i _ => hb _ (by omega) (by omega)
  have hheader : ipchksum b' = ipchksum b := by
    unfold ipchksum
    rw [hread (by decide) (by decide)]
  have hsrc : IpAddr.load b' 26 = IpAddr.load b 26 := by
    unfold IpAddr.load Mem.get16
    rw [hb 26 (by decide) (by omega), hb (26 + 1) (by decide) (by omega),
      hb (26 + 2) (by decide) (by omega), hb (26 + 2 + 1) (by decide) (by omega)]
  have hproto : b' 23 = b 23 := hb 23 (by decide) (by omega)
  refine .inr ?_
  rcases h.packet with h | h | h
  · rw [UInt16.le_iff_toNat_le, h20] at h
    exact absurd h hlen
  · refine .inl ⟨hproto.trans h.proto, (hb 34 (by decide) (by omega)).trans h.type, ?_⟩
    rw [hsrc, hheader]
    exact h.header
  · have hipLen : ipLen b' = ipLen b :=
      ipLen_congr (hb 16 (by decide) (by omega)) (hb 17 (by decide) (by omega))
    have hbound : 34 + (ipLen b - 20).toNat = 14 + len.toNat := by
      rw [h.length, UInt16.toNat_sub_of_le _ _ (by rw [UInt16.le_iff_toNat_le, h20]; omega), h20]
      omega
    refine .inr ⟨(hb 14 (by decide) (by omega)).trans h.vhl, hipLen.trans h.length,
      hheader.trans h.header, ?_⟩
    rw [hproto, tcpchksum_congr hipLen fun x hx hlt => hb x (by omega) (by omega)]
    exact h.payload

namespace Stack

variable {α : Type*} {w w₁ : Stack α} {c : ConnId}

theorem ipLen_putLen (w : Stack α) : ipLen w.putLen.buf = w.len := ipLen_of_bytes rfl rfl

theorem ipSendNolen_wellFormed (hlen : ipLen w.buf = w.len)
    (hpayload : w.buf 23 = 6 ∧ 40 ≤ w.len ∧ tcpchksum w.buf = 0xffff ∨
      w.buf 23 = 17 ∧ 28 ≤ w.len) :
    WellFormed w.ipSendNolen.buf w.len := by
  have hafter (x : Nat) (hx : 26 ≤ x) : w.ipSendNolen.buf x = w.buf x := by
    simp [ipSendNolen, send, Mem.write, le16, show ¬x < 26 by omega, show ¬x < 16 by omega,
      show ¬x < 22 by omega, show ¬x < 20 by omega]
  have hipLen : ipLen w.ipSendNolen.buf = ipLen w.buf := by
    apply ipLen_congr <;> simp [ipSendNolen, send, Mem.write, le16]
  refine ⟨?_, hipLen.trans hlen, ?_, ?_⟩
  · simp [ipSendNolen, send, Mem.write, le16]
  · unfold ipSendNolen send
    dsimp only
    refine ipchksum_write ?_
    simp [Mem.read, Mem.write, List.range_succ]
  · rw [ipSendNolen_proto, tcpchksum_congr hipLen fun x hx _ => hafter x hx]
    exact hpayload

theorem tcpSendNoconn_wellFormed (hproto : w.buf 23 = 6) (hlen : 40 ≤ w.len) :
    WellFormed w.tcpSendNoconn.buf w.len := by
  unfold tcpSendNoconn
  dsimp only
  set w₁ := (((w.put 22 [64]).putLen.put 52 [0, 0]).put 50 [0, 0]) with hw₁
  have hlen₁ : ipLen w₁.buf = w.len := by
    rw [← ipLen_putLen w]
    apply ipLen_congr <;> simp [hw₁, put, putLen, Mem.write]
  have hfield : w₁.buf.read 50 2 = [0, 0] := by
    simp [hw₁, put, putLen, Mem.read, Mem.write, List.range_succ]
  have hproto₁ : w₁.buf 23 = 6 := by simpa [hw₁, put, putLen, Mem.write] using hproto
  set w₂ := w₁.put 50 (le16 (~~~tcpchksum w₁.buf)) with hw₂
  have hlen₂ : ipLen w₂.buf = w.len := by
    rw [← hlen₁]
    apply ipLen_congr <;> simp [hw₂, put, Mem.write]
  have hproto₂ : w₂.buf 23 = 6 := by simpa [hw₂, put, Mem.write] using hproto₁
  refine ipSendNolen_wellFormed (w := w₂) hlen₂ (.inl ⟨hproto₂, hlen, tcpchksum_write hfield ?_⟩)
  have h40 : (40 : UInt16).toNat = 40 := rfl
  rw [UInt16.le_iff_toNat_le, h40] at hlen
  rw [hlen₁]
  omega

theorem tcpSend_wellFormed (c : ConnId) (hlen : 40 ≤ w.len) :
    WellFormed (tcpSend c w).buf w.len := by
  have hproto := tcpSend_proto c w
  unfold tcpSend at hproto ⊢
  dsimp only at hproto ⊢
  rw [tcpSendNoconn_proto] at hproto
  exact tcpSendNoconn_wellFormed hproto hlen

/-- A segment from a label with the length of a header or more. -/
theorem goto_wellFormed {l : Label} (h : l.Tcp) (hlen : 40 ≤ l.length w.len) :
    WellFormed (w.goto l).buf (l.length w.len) := by
  cases l with
  | tcpSendAck c => exact tcpSend_wellFormed c hlen
  | tcpSendNodata c => exact tcpSend_wellFormed c hlen
  | tcpSendNoopts c => exact tcpSend_wellFormed c hlen
  | tcpSend c => exact tcpSend_wellFormed c hlen
  | _ => exact h.elim

/-- What `uip_process` leaves is fit to be sent. -/
abbrev Leaves (w : Stack α) : Prop := Fit w.buf w.len

theorem goto_drop_leaves (w : Stack α) : (w.goto .drop).Leaves := by
  refine ⟨?_, .inl ?_⟩
  · exact (by decide : (0 : UInt16) ≤ 1010)
  · exact (by decide : (0 : UInt16) ≤ 20)

theorem goto_leaves {l : Label} (h : l.Tcp) (hlen : 40 ≤ l.length w.len)
    (hle : l.length w.len ≤ 1010) : (w.goto l).Leaves := by
  unfold Leaves
  rw [goto_len]
  exact ⟨hle, .inr (.inr (goto_wellFormed h hlen))⟩

theorem tcpSendAck_leaves (c : ConnId) (w : Stack α) : (w.goto (.tcpSendAck c)).Leaves := by
  refine goto_leaves trivial ?_ ?_
  · exact (by decide : (40 : UInt16) ≤ 40)
  · exact (by decide : (40 : UInt16) ≤ 1010)

theorem tcpSendNodata_leaves (c : ConnId) (w : Stack α) : (w.goto (.tcpSendNodata c)).Leaves := by
  refine goto_leaves trivial ?_ ?_
  · exact (by decide : (40 : UInt16) ≤ 40)
  · exact (by decide : (40 : UInt16) ≤ 1010)

theorem tcpSendSyn_leaves (c : ConnId) (w : Stack α) : (tcpSendSyn c w).Leaves := by
  unfold tcpSendSyn
  refine goto_leaves (l := .tcpSend c) trivial ?_ ?_
  · exact (by decide : (40 : UInt16) ≤ 44)
  · exact (by decide : (44 : UInt16) ≤ 1010)

theorem reset_leaves (hproto : w.buf 23 = 6) : (reset w).Leaves := by
  unfold reset
  split
  · exact goto_drop_leaves w
  · refine ⟨(by decide : (40 : UInt16) ≤ 1010), .inr (.inr ?_)⟩
    refine tcpSendNoconn_wellFormed ?_ (UInt16.le_refl 40)
    simpa [put, putFlags, Mem.write, IpAddr.bytes, Quad.bytes, le16] using hproto

theorem udpSend_leaves (u : UdpId) (hslen : w.slen.toNat ≤ 256) : (udpSend u w).Leaves := by
  unfold udpSend
  split
  · exact goto_drop_leaves w
  · set w₁ : Stack α := { w with len := w.slen + 28 } with hw₁
    have hlen : w₁.len.toNat = w.slen.toNat + 28 := by
      rw [hw₁, UInt16.toNat_add]
      exact Nat.mod_eq_of_lt (show w.slen.toNat + 28 < 65536 by omega)
    have hle : w₁.len ≤ 1010 := by
      rw [UInt16.le_iff_toNat_le, hlen]
      exact (by omega : w.slen.toNat + 28 ≤ 1010)
    have hge : 28 ≤ w₁.len := by
      rw [UInt16.le_iff_toNat_le, hlen]
      exact Nat.le_add_left ..
    refine ⟨hle, .inr (.inr (ipSendNolen_wellFormed (Eq.trans ?_ (ipLen_putLen w₁))
      (.inr ⟨?_, hge⟩)))⟩
    · apply ipLen_congr <;> simp [put, Mem.write, IpAddr.bytes, le16]
    · simp [put, Mem.write, IpAddr.bytes, le16]

/-! ### `uip_process` -/

/-- What `uip_process` leaves is fit to be sent, if it ends before a call of an application. -/
def Outcome.Leaves : Outcome α → Prop
  | .done w => w.Leaves
  | _ => True

theorem closing_leaves (c : ConnId) (w : Stack α) : (closing c w).Leaves := by
  unfold closing
  split
  · exact goto_drop_leaves _
  · exact goto_drop_leaves w

theorem tcpState_leaves (c : ConnId) (w : Stack α) : (tcpState c w).Leaves := by
  unfold tcpState
  split
  · unfold synRcvd
    split
    · trivial
    · exact goto_drop_leaves w
  · unfold synSent
    split
    · dsimp only
      split
      · exact goto_drop_leaves _
      · trivial
    · trivial
  · unfold established establishedFin
    split
    · split
      · exact goto_drop_leaves w
      · trivial
    · dsimp only
      split
      · trivial
      · exact goto_drop_leaves _
  · unfold lastAck
    split
    · trivial
    · exact goto_drop_leaves w
  · unfold finWait1
    dsimp only
    split
    · trivial
    split
    · exact goto_drop_leaves _
    split
    · exact tcpSendAck_leaves c _
    · exact goto_drop_leaves _
  · unfold finWait2
    dsimp only
    split
    · trivial
    split
    · exact tcpSendAck_leaves c _
    · exact goto_drop_leaves _
  · exact tcpSendAck_leaves c w
  · exact closing_leaves c w
  · exact goto_drop_leaves w

theorem tcpInput_leaves (hproto : w.buf 23 = 6) : (tcpInput w).Leaves := by
  unfold tcpInput
  split
  · exact goto_drop_leaves w
  split
  · next c _ =>
    unfold found foundSegment
    dsimp only
    split
    · trivial
    split
    · exact tcpSendAck_leaves c _
    · exact tcpState_leaves c _
  · unfold Outcome.Leaves
    dsimp only
    split
    · exact reset_leaves hproto
    split
    · unfold foundListen
      split
      · exact goto_drop_leaves w
      · next c _ =>
        dsimp only
        split
        · exact goto_drop_leaves _
        · exact tcpSendSyn_leaves c _
    · exact reset_leaves hproto

theorem connTimer_leaves (c : ConnId) (w : Stack α) : (connTimer c w).Leaves := by
  unfold connTimer
  dsimp only
  split
  · split <;> exact goto_drop_leaves _
  split
  · exact goto_drop_leaves w
  split
  · split
    · exact goto_drop_leaves _
    split
    · trivial
    · unfold rexmit
      dsimp only
      split
      · exact tcpSendSyn_leaves c _
      · exact tcpSendSyn_leaves c _
      · trivial
      · exact tcpSendNodata_leaves c _
      · exact tcpSendNodata_leaves c _
      · exact tcpSendNodata_leaves c _
      · exact goto_drop_leaves _
  split
  · trivial
  · exact goto_drop_leaves w

/-! ### Echo requests -/

/-- What the checks of the header have found out. -/
theorem ipVerdict_cases (w : Stack α) :
    (w.ipVerdict = .tcp → w.buf 23 = 6 ∧ ipchksum w.buf = 0xffff) ∧
      (w.ipVerdict = .icmp → w.buf 23 = 1 ∧ ipchksum w.buf = 0xffff ∧
        (w.hostaddr ≠ .zeroes → IpAddr.load w.buf 30 = w.hostaddr)) := by
  unfold ipVerdict
  split_ifs <;> simp_all

/-- The answer to an echo request: the addresses change places, the type changes, and the checksum
with it. -/
structure Echoes (w w' : Stack α) : Prop where
  len : w'.len = w.len
  fixed : w'.buf.read 14 12 = w.buf.read 14 12
  source : w'.buf.read 26 4 = w.hostaddr.bytes
  dest : w'.buf.read 30 4 = w.buf.read 26 4
  type : w'.buf 34 = 0
  sum : ∀ n, 4 ≤ n → wordSum (w'.buf.read 34 n) ≡ wordSum (w.buf.read 34 n) [MOD 65535]
  message : ∀ x, 38 ≤ x → w'.buf x = w.buf x

/-- The checksum in memory order gets the 8 that the type loses. -/
theorem echo_chksum (v : UInt16) :
    wordSum (le16 (if v ≥ htons (0xffff - 0x800) then v + (htons 0x800 + 1) else v + htons 0x800)) ≡
      wordSum (le16 v) + 0x800 [MOD 65535] := by
  have hv := v.toNat_lt
  have h1 : htons (0xffff - 0x800) = 0xfff7 := by decide
  have h2 : htons 0x800 + 1 = 9 := by decide
  have h3 : htons 0x800 = 8 := by decide
  have h9 : (9 : UInt16).toNat = 9 := rfl
  have h8 : (8 : UInt16).toNat = 8 := rfl
  have h7 : (0xfff7 : UInt16).toNat = 65527 := rfl
  rw [wordSum_le16, wordSum_le16, h1, h2, h3]
  unfold Nat.ModEq
  split
  · next hge =>
    rw [ge_iff_le, UInt16.le_iff_toNat_le, h7] at hge
    have hwrap : (v.toNat + 9) % 2 ^ 16 = v.toNat - 65527 := by omega
    rw [UInt16.toNat_add, h9, hwrap]
    omega
  · next hlt =>
    rw [ge_iff_le, UInt16.le_iff_toNat_le, h7, not_le] at hlt
    have hwrap : (v.toNat + 8) % 2 ^ 16 = v.toNat + 8 := by omega
    rw [UInt16.toNat_add, h8, hwrap]
    omega

theorem echo_sum {b : Mem} (h : b 34 = 8) {v : UInt16}
    (hv : wordSum (le16 v) ≡ wordSum (le16 (b.get16 36)) + 0x800 [MOD 65535]) {n : Nat}
    (hn : 4 ≤ n) :
    wordSum (((b.write 34 [0]).write 36 (le16 v)).read 34 n) ≡ wordSum (b.read 34 n)
      [MOD 65535] := by
  obtain ⟨k, rfl⟩ := Nat.exists_eq_add_of_le' (show 2 ≤ n by omega)
  rw [Nat.add_comm k 2]
  have hsplit (m : Mem) : wordSum (m.read 34 (2 + k)) =
      (m 34).toNat * 256 + (m 35).toNat + wordSum (m.read 36 k) := by
    rw [← Mem.read_append, wordSum_append (by simp), Mem.read_cons, Mem.read_cons]
    exact congrArg (· + _) (wordSum_pair ..)
  have hfield := wordSum_write (b.write 34 [0]) 36 k 36 (le16 v) rfl
    (Nat.le_refl _) (by omega) (by decide)
  have hbehind (j : Nat) : (b.write 34 [0]).read 36 j = b.read 36 j :=
    Mem.read_write_of_ge (by decide)
  have h34 : ((b.write 34 [0]).write 36 (le16 v)) 34 = 0 := by simp [Mem.write]
  have h35 : ((b.write 34 [0]).write 36 (le16 v)) 35 = b 35 := by simp [Mem.write]
  have h8 : (8 : UInt8).toNat = 8 := rfl
  have h0 : (0 : UInt8).toNat = 0 := rfl
  rw [hbehind, hbehind, ← le16_get16] at hfield
  rw [hsplit, hsplit, h34, h35, h, h8, h0]
  unfold Nat.ModEq at hv ⊢
  omega

theorem icmpInput_echoes (h : w.buf 34 = 8) : Echoes w (icmpInput w) := by
  unfold icmpInput
  rw [if_neg (not_not.mpr h)]
  dsimp only [goto, send, put]
  set b₁ := w.buf.write 34 [0] with hb₁
  have hchk : b₁.get16 36 = w.buf.get16 36 := by simp [hb₁, Mem.get16, Mem.write]
  rw [hchk]
  set b₂ := b₁.write 36 (le16 _) with hb₂
  have hbefore (a n : Nat) (hn : a + n ≤ 34) : b₂.read a n = w.buf.read a n := by
    rw [hb₂, hb₁, Mem.read_write_of_le (by omega), Mem.read_write_of_le hn]
  have hsrc : (IpAddr.load b₂ 26).bytes = w.buf.read 26 4 := by
    rw [IpAddr.bytes_load, hbefore 26 4 (by decide)]
  have hbehind (x : Nat) (hx : 34 ≤ x) :
      ((b₂.write 30 (IpAddr.load b₂ 26).bytes).write 26 w.hostaddr.bytes) x = b₂ x := by
    rw [Mem.write_apply_of_ge (by simpa [IpAddr.bytes, le16] using by omega),
      Mem.write_apply_of_ge (by simpa [IpAddr.bytes, le16] using hx)]
  refine ⟨rfl, ?_, ?_, ?_, ?_, ?_, fun x hx => ?_⟩
  · rw [Mem.read_write_of_le (by decide), Mem.read_write_of_le (by decide),
      hbefore 14 12 (by decide)]
  · exact Mem.read_write_self _ 26 w.hostaddr.bytes
  · rw [Mem.read_write_of_ge (show 26 + w.hostaddr.bytes.length ≤ 30 from Nat.le_refl 30), ← hsrc]
    exact Mem.read_write_self _ 30 _
  · refine (hbehind 34 (by decide)).trans ?_
    simp [hb₂, hb₁, Mem.write]
  · intro n hn
    have hread := Mem.read_congr (n := n) fun i _ => hbehind (34 + i) (Nat.le_add_right ..)
    refine Nat.ModEq.trans ?_ (echo_sum h (echo_chksum _) hn)
    exact congrArg (wordSum · % 65535) hread
  · refine (hbehind x (by omega)).trans ?_
    rw [hb₂, hb₁, Mem.write_apply_of_ge (by simpa [le16] using hx),
      Mem.write_apply_of_ge (by simpa using by omega)]

theorem Echoes.proto {w' : Stack α} (h : Echoes w w') : w'.buf 23 = w.buf 23 := by
  have hbyte : (w'.buf.read 14 12)[9]? = some (w.buf 23) := by
    rw [h.fixed]
    exact Mem.getElem?_read (by decide)
  exact Mem.of_getElem?_read hbyte

/-- The header with the addresses changed has the same sum. -/
theorem Echoes.header {w' : Stack α} (h : Echoes w w') (hdest : IpAddr.load w.buf 30 = w.hostaddr) :
    ipchksum w'.buf = 0xffff ↔ ipchksum w.buf = 0xffff := by
  have hsplit (b : Mem) : wordSum (b.read 14 20) =
      wordSum (b.read 14 12) + (wordSum (b.read 26 4) + wordSum (b.read 30 4)) := by
    rw [show b.read 14 20 = b.read 14 (12 + (4 + 4)) from rfl, ← Mem.read_append,
      ← Mem.read_append, wordSum_append (by simp), wordSum_append (by simp)]
  have hhost : w.hostaddr.bytes = w.buf.read 30 4 := by
    rw [← hdest, IpAddr.bytes_load]
  rw [ipchksum_eq_iff, ipchksum_eq_iff, hsplit, hsplit, h.fixed, h.source, h.dest, hhost,
    Nat.add_comm (wordSum (w.buf.read 26 4))]

theorem load_of_read {b : Mem} {a : Nat} {ip : IpAddr} (h : b.read a 4 = ip.bytes) :
    IpAddr.load b a = ip := by
  rw [← IpAddr.bytes_load] at h
  obtain ⟨h0, h1⟩ := List.append_inj h rfl
  exact congrArg₂ IpAddr.mk (le16_injective h0) (le16_injective h1)

theorem icmpInput_leaves (hle : w.len ≤ 1010) (hverdict : w.ipVerdict = .icmp) :
    (icmpInput w).Leaves := by
  obtain ⟨hproto, hheader, hdest⟩ := (ipVerdict_cases w).2 hverdict
  by_cases h : w.buf 34 = 8
  · obtain hechoes := icmpInput_echoes h
    unfold Leaves
    rw [hechoes.len]
    refine ⟨hle, .inr (.inl ⟨hechoes.proto.trans hproto, hechoes.type, fun hsource => ?_⟩)⟩
    rw [load_of_read hechoes.source] at hsource
    exact (hechoes.header (hdest hsource)).mpr hheader
  · unfold icmpInput
    rw [if_pos h]
    exact goto_drop_leaves w

/-! ### A call of `uip_process` -/

/-- A packet that is no fragment, with as many bytes as its header says. -/
theorem ipInput_whole (hvhl : w.buf 14 = 0x45) (hle : ipLen w.buf ≤ w.len)
    (hwhole : w.buf 20 &&& 0x3f = 0 ∧ w.buf 21 = 0) :
    w.ipInput = ({ w with len := ipLen w.buf }, w.ipVerdict) := by
  have hfragment : ¬(w.buf 20 &&& 0x3f ≠ 0 ∨ w.buf 21 ≠ 0) := by
    rw [hwhole.1, hwhole.2]
    simp
  have hlength : w.ipLength = some { w with len := ipLen w.buf } := by
    unfold ipLength
    rw [if_neg (not_not.mpr hvhl), if_pos hle]
  have hsame : ipFragment { w with len := ipLen w.buf } = { w with len := ipLen w.buf } :=
    if_neg hfragment
  unfold ipInput
  rw [hlength]
  dsimp only
  rw [hsame, if_neg fun h => hfragment h.2]
  rfl

theorem ipInput_verdict {w₁ : Stack α} {v : IpVerdict} (h : w.ipInput = (w₁, v)) (hv : v ≠ .drop) :
    w₁.ipVerdict = v ∧ (w.len ≤ 1010 → w₁.len ≤ 1010) := by
  unfold ipInput at h
  split at h
  · exact absurd (Prod.mk.inj h).2.symm hv
  · next w' hlength =>
    have hlen : w'.len ≤ w.len := by
      unfold ipLength at hlength
      split at hlength
      · cases hlength
      split at hlength
      · next hle =>
        obtain rfl := Option.some.inj hlength
        exact hle
      · cases hlength
    have hfragment : w'.len ≤ 1010 → w'.ipFragment.len ≤ 1010 := by
      intro hle
      unfold ipFragment
      split
      · split
        · exact (by decide : (0 : UInt16) ≤ 1010)
        have hlt := (uipReass w'.buf w'.reass).1.toNat_lt
        have h1010 : (1010 : UInt16).toNat = 1010 := rfl
        dsimp only
        rw [UInt16.le_iff_toNat_le, UInt8.toNat_toUInt16, h1010]
        omega
      · exact hle
    dsimp only at h
    split at h
    · exact absurd (Prod.mk.inj h).2.symm hv
    · obtain ⟨rfl, hverdict⟩ := Prod.mk.inj h
      exact ⟨hverdict, fun hle => hfragment (UInt16.le_trans hlen hle)⟩

theorem dataInput_leaves (hle : w.len ≤ 1010) : (dataInput w).Leaves := by
  unfold dataInput
  split
  · next w₁ h =>
    obtain ⟨hverdict, -⟩ := ipInput_verdict h (by decide)
    exact tcpInput_leaves ((ipVerdict_cases w₁).1 hverdict).1
  · unfold udpInput
    dsimp only
    split
    · trivial
    · exact goto_drop_leaves _
  · next w₁ h =>
    obtain ⟨hverdict, hlen⟩ := ipInput_verdict h (by decide)
    exact icmpInput_leaves (hlen hle) hverdict
  · exact goto_drop_leaves _

theorem process_leaves {flag : ProcessFlag} (hflag : ∀ u, flag ≠ .udpSendConn u)
    (hdata : flag = .data → w.len ≤ 1010) : (w.process flag).Leaves := by
  rcases process_cases w flag with ⟨-, h⟩ | ⟨-, h⟩
  · rw [h]
    exact goto_drop_leaves _
  rw [h]
  cases flag with
  | data => exact dataInput_leaves (w := w.enter) (hdata rfl)
  | timer c => exact connTimer_leaves c _
  | pollRequest c =>
    unfold dispatch
    dsimp only
    split
    · trivial
    · exact goto_drop_leaves _
  | udpSendConn u => exact absurd rfl (hflag u)
  | udpTimer u =>
    unfold dispatch
    dsimp only
    split
    · trivial
    · exact goto_drop_leaves _

theorem apprexmit_leaves (c : ConnId) (again : Bool) (hlen : (w.conns c).len ≤ 970) :
    (apprexmit c again w).Leaves := by
  unfold apprexmit
  dsimp only
  split
  · have h40 : (40 : UInt16).toNat = 40 := rfl
    have h970 : (970 : UInt16).toNat = 970 := rfl
    have h1010 : (1010 : UInt16).toNat = 1010 := rfl
    rw [UInt16.le_iff_toNat_le, h970] at hlen
    have hadd : ((w.conns c).len + 40).toNat = (w.conns c).len.toNat + 40 := by
      rw [UInt16.toNat_add, h40]
      omega
    refine goto_leaves (l := .tcpSendNoopts c) trivial ?_ ?_
    · change 40 ≤ (w.conns c).len + 40
      rw [UInt16.le_iff_toNat_le, hadd, h40]
      omega
    · change (w.conns c).len + 40 ≤ 1010
      rw [UInt16.le_iff_toNat_le, hadd, h1010]
      omega
  split
  · refine goto_leaves (l := .tcpSendNoopts c) trivial ?_ ?_
    · exact (by decide : (40 : UInt16) ≤ 40)
    · exact (by decide : (40 : UInt16) ≤ 1010)
  · exact goto_drop_leaves _

theorem appsend_leaves (hsmall : (w.conns c).Small) : (appsend c w).Leaves := by
  unfold appsend
  split
  · exact tcpSendNodata_leaves c _
  split
  · exact tcpSendNodata_leaves c _
  · refine apprexmit_leaves c _ ?_
    rw [modConn_self]
    exact ((appsendLen_keeps c w).1.small hsmall).len

/-- The stack goes on with a segment, or with none. -/
def After.Answers : After → Prop
  | .refused => False
  | .goto l => l = .drop ∨ ∃ c, l = .tcpSendAck c
  | _ => True

theorem Transition.answers {due : Prop} {ts ts' : TcpState} {n n' : UInt16} {acked : Bool}
    {flags : Flags} {after : After} (h : Transition due ts n acked (some (flags, after)) ts' n') :
    after.Answers := by
  cases h with
  | peerFin c => exact .inr ⟨c, rfl⟩
  | lastAck | reset => exact .inl rfl
  | _ => trivial

theorem After.run_leaves {after : After} (h : after.Answers) (hsmall : (w.conns c).Small) :
    (after.run c w).Leaves := by
  cases after with
  | appsend => exact appsend_leaves hsmall
  | apprexmit => exact apprexmit_leaves c true hsmall.len
  | lastAck => exact tcpSendNodata_leaves c _
  | refused => exact h.elim
  | timedout => exact tcpSendNodata_leaves c _
  | goto l =>
    rcases h with rfl | ⟨d, rfl⟩
    · exact goto_drop_leaves w
    · exact tcpSendAck_leaves d w

end Stack

end OpenPLC
