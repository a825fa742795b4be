import OpenPLC.Apps.Offers
import OpenPLC.Resolution

/-! The board answers the echo requests of its neighbours: in the turn that reads one, the one frame
that it sends goes back to the hardware address that the request came from, with the message. -/

namespace OpenPLC

open Lib OnesComplement

namespace Stack

variable {α : Type*} {w w' : Stack α} {a : Arp}

/-- `uip_buf` has a frame with an echo request to the board, from a host of the local network. -/
structure Pings (w : Stack α) : Prop where
  type : w.buf.get16 12 = htons ethtypeIp
  vhl : w.buf 14 = 0x45
  length : 28 ≤ ipLen w.buf ∧ (ipLen w.buf).toNat + 14 ≤ w.len.toNat
  whole : w.buf 20 &&& 0x3f = 0 ∧ w.buf 21 = 0
  header : ipchksum w.buf = 0xffff
  proto : w.buf 23 = 1
  echo : w.buf 34 = 8
  dest : w.hostaddr ≠ .zeroes ∧ IpAddr.load w.buf 30 = w.hostaddr
  source : (IpAddr.load w.buf 26).Plain ∧ IpAddr.load w.buf 26 ≠ .ones ∧
    (IpAddr.load w.buf 26).mask w.netmask = w.hostaddr.mask w.netmask

instance (w : Stack α) : Decidable w.Pings :=
  decidable_of_iff (w.buf.get16 12 = htons ethtypeIp ∧ w.buf 14 = 0x45 ∧
      (28 ≤ ipLen w.buf ∧ (ipLen w.buf).toNat + 14 ≤ w.len.toNat) ∧
      (w.buf 20 &&& 0x3f = 0 ∧ w.buf 21 = 0) ∧ ipchksum w.buf = 0xffff ∧ w.buf 23 = 1 ∧
      w.buf 34 = 8 ∧ (w.hostaddr ≠ .zeroes ∧ IpAddr.load w.buf 30 = w.hostaddr) ∧
      (IpAddr.load w.buf 26).Plain ∧ IpAddr.load w.buf 26 ≠ .ones ∧
      (IpAddr.load w.buf 26).mask w.netmask = w.hostaddr.mask w.netmask)
    ⟨fun ⟨h₁, h₂, h₃, h₄, h₅, h₆, h₇, h₈, h₉⟩ => ⟨h₁, h₂, h₃, h₄, h₅, h₆, h₇, h₈, h₉⟩,
      fun h => ⟨h.type, h.vhl, h.length, h.whole, h.header, h.proto, h.echo, h.dest, h.source⟩⟩

theorem Pings.arpIpin (h : w.Pings) (a : Arp) :
    (w.arpIpin a).2 = a.update (.load w.buf 26) (w.buf.read 6 6) := by
  unfold Stack.arpIpin
  dsimp only
  rw [if_neg (not_not.mpr h.source.2.2)]

theorem Pings.ipVerdict (h : w.Pings) : w.ipVerdict = .icmp := by
  have h17 : ¬(w.hostaddr ≠ .zeroes ∧ w.buf 23 = 17 ∧ IpAddr.load w.buf 30 = .ones) := by
    rw [h.proto]
    rintro ⟨-, hproto, -⟩
    exact absurd hproto (by decide)
  unfold Stack.ipVerdict
  rw [if_neg h17, if_neg fun hdest => hdest.2 h.dest.2, if_neg (not_not.mpr h.header), h.proto]
  rfl

theorem icmpInput_same (w : Stack α) : (icmpInput w).appdata = w.appdata ∧
    (icmpInput w).hostaddr = w.hostaddr ∧ (icmpInput w).netmask = w.netmask ∧
    (icmpInput w).ethaddr = w.ethaddr ∧ (icmpInput w).lost = w.lost := by
  unfold icmpInput
  split <;> exact ⟨rfl, rfl, rfl, rfl, rfl⟩

theorem ethHeader_ethernet {dest : List UInt8} (hdest : dest.length = 6)
    (hmac : w.ethaddr.length = 6) : (w.ethHeader dest).buf.read 0 12 = dest ++ w.ethaddr := by
  unfold ethHeader
  dsimp only [put]
  rw [Mem.read_write_of_le (by decide), show (12 : Nat) = 6 + 6 from rfl, ← Mem.read_append,
    Mem.read_write_of_le (by decide), Mem.read_write_of_length _ _ hdest,
    Mem.read_write_of_length _ _ hmac]

/-- What `uip_process` makes of the request. -/
theorem Pings.process (h : w.Pings) (hlost : w.lost = false) (A : Apps α) :
    uipProcess A .data { w with len := w.len - 14 } =
      icmpInput ({ w with len := ipLen w.buf } : Stack α).enter := by
  obtain ⟨-, hlen⟩ := h.length
  have h14 : (14 : UInt16).toNat = 14 := rfl
  have hle : ipLen w.buf ≤ w.len - 14 := by
    rw [UInt16.le_iff_toNat_le, UInt16.toNat_sub_of_le _ _
      (by rw [UInt16.le_iff_toNat_le, h14]; omega), h14]
    omega
  have hinput :=
    ipInput_whole (w := ({ w with len := w.len - 14 } : Stack α).enter) h.vhl hle h.whole
  have hverdict : ({ w with len := w.len - 14 } : Stack α).enter.ipVerdict = .icmp := h.ipVerdict
  rw [hverdict] at hinput
  have hprocess : ({ w with len := w.len - 14 } : Stack α).process .data =
      dataInput ({ w with len := w.len - 14 } : Stack α).enter :=
    if_neg (Bool.eq_false_iff.mp hlost)
  unfold uipProcess
  rw [hprocess]
  unfold dataInput
  rw [hinput]
  rfl

/-- The frame of `n` bytes in `m` answers the request in `w`: it goes back to where the request came
from, with its message, and its checksums are right if those of the request are. -/
structure Answers (w : Stack α) (m : Mem) (n : Nat) : Prop where
  len : n = (ipLen w.buf).toNat + 14
  ethernet : m.read 0 12 = w.buf.read 6 6 ++ w.ethaddr
  type : m.get16 12 = htons ethtypeIp
  fixed : m.read 14 12 = w.buf.read 14 12
  addresses : m.read 26 8 = w.hostaddr.bytes ++ w.buf.read 26 4
  header : ipchksum m = 0xffff
  reply : m 34 = 0
  sum : Checks (wordSum (m.read 34 (ipLen w.buf - 20).toNat)) ↔
    Checks (wordSum (w.buf.read 34 (ipLen w.buf - 20).toNat))
  message : ∀ x, 38 ≤ x → x < n → m x = w.buf x

/-- Only the bytes of the frame matter. -/
theorem Answers.congr {m m' : Mem} {n : Nat} (h : w.Answers m n) (hge : 28 ≤ ipLen w.buf)
    (hm : ∀ x < n, m' x = m x) : w.Answers m' n := by
  have hlen := h.len
  have h20 : (20 : UInt16).toNat = 20 := rfl
  have h28 : (28 : UInt16).toNat = 28 := rfl
  rw [UInt16.le_iff_toNat_le, h28] at hge
  have hsub : (ipLen w.buf - 20).toNat = (ipLen w.buf).toNat - 20 := by
    rw [UInt16.toNat_sub_of_le _ _ (by rw [UInt16.le_iff_toNat_le, h20]; omega), h20]
  have hread {x k : Nat} (hx : x + k ≤ n) : m'.read x k = m.read x k :=
    Mem.read_congr fun i hi => hm (x + i) (by omega)
  refine ⟨hlen, ?_, ?_, ?_, ?_, ?_, ?_, ?_, fun x hx hn => (hm x hn).trans (h.message x hx hn)⟩
  · rw [hread (by omega), h.ethernet]
  · rw [← h.type]
    unfold Mem.get16
    rw [hm 12 (by omega), hm (12 + 1) (by omega)]
  · rw [hread (by omega), h.fixed]
  · rw [hread (by omega), h.addresses]
  · rw [← h.header]
    unfold ipchksum
    rw [hread (by omega)]
  · rw [hm 34 (by omega), h.reply]
  · rw [hread (by omega), h.sum]

theorem Pings.answers (h : w.Pings) (hlost : w.lost = false) (A : Apps α)
    (hmac : w.ethaddr.length = 6) (hsingle : a.Single) :
    let w₁ := uipProcess A .data { w with len := w.len - 14 }
    let w₂ := w₁.arpOut (a.update (.load w.buf 26) (w.buf.read 6 6))
    (0 < w₁.len ∧ w₁.lost = false) ∧ w₁.Framed ∧ w.Answers w₂.buf w₂.len.toNat := by
  intro w₁ w₂
  set w₀ := ({ w with len := ipLen w.buf } : Stack α).enter with hw₀
  have hw₁ : w₁ = icmpInput w₀ := h.process hlost A
  obtain ⟨happdata, hhost, hmask, hethaddr, hlost₁⟩ := icmpInput_same w₀
  rw [← hw₁] at happdata hhost hmask hethaddr hlost₁
  have hechoes : Echoes w₀ w₁ := by
    rw [hw₁]
    exact icmpInput_echoes h.echo
  have hlen : w₁.len = ipLen w.buf := hechoes.len
  obtain ⟨hge, hle⟩ := h.length
  have hpos : 0 < w₁.len := by
    rw [hlen]
    exact UInt16.lt_of_lt_of_le (by decide) hge
  refine ⟨⟨hpos, hlost₁.trans hlost⟩, .inl happdata, ?_⟩
  -- the way back is what the request has taught
  have hmac₁ : w₁.ethaddr.length = 6 := by
    rw [hethaddr]
    exact hmac
  have hdst : IpAddr.load w₁.buf 30 = .load w.buf 26 := by
    refine load_of_read (hechoes.dest.trans ?_)
    rw [IpAddr.bytes_load]
    rfl
  have hlookup : (a.update (.load w.buf 26) (w.buf.read 6 6)).lookup (.load w.buf 26) =
      some (w.buf.read 6 6) := by
    rw [Arp.lookup_eq_entry, hsingle.entry_update_self h.source.1]
    rfl
  have hneighbour : ¬(IpAddr.load w.buf 26).mask w₁.netmask ≠ w₁.hostaddr.mask w₁.netmask := by
    rw [hmask, hhost]
    exact not_not.mpr h.source.2.2
  have hout : w₁.arpOut (a.update (.load w.buf 26) (w.buf.read 6 6)) =
      w₁.ethHeader (w.buf.read 6 6) := by
    unfold arpOut
    dsimp only
    rw [hdst, if_neg h.source.2.1, if_neg hneighbour, hlookup]
  have hread6 : (w.buf.read 6 6).length = 6 := Mem.length_read ..
  obtain ⟨-, hrest⟩ := ethHeader_buf (w := w₁) hread6 hmac₁
  have hread {x n : Nat} (hx : 14 ≤ x) :
      (w₁.ethHeader (w.buf.read 6 6)).buf.read x n = w₁.buf.read x n :=
    Mem.read_congr fun i _ => hrest (x + i) (by omega)
  have hheader : ipchksum (w₁.ethHeader (w.buf.read 6 6)).buf = ipchksum w₁.buf := by
    unfold ipchksum
    rw [hread (by decide)]
  have hhdr := (hechoes.header h.dest.2).mpr h.header
  have hsum := hechoes.sum (ipLen w.buf - 20).toNat ?_
  · rw [show w₂ = w₁.ethHeader (w.buf.read 6 6) from hout]
    refine ⟨?_, ?_, get16_write .., ?_, ?_, ?_, ?_, ?_, fun x hx _ => ?_⟩
    · change (w₁.len + 14).toNat = _
      rw [UInt16.toNat_add, hlen]
      exact Nat.mod_eq_of_lt (lt_of_le_of_lt hle w.len.toNat_lt)
    · rw [ethHeader_ethernet hread6 hmac₁, hethaddr]
      rfl
    · rw [hread (by decide)]
      exact hechoes.fixed
    · rw [hread (by decide), show (8 : Nat) = 4 + 4 from rfl, ← Mem.read_append, hechoes.source,
        hechoes.dest]
      rfl
    · rw [hheader]
      exact hhdr
    · rw [hrest 34 (by decide)]
      exact hechoes.type
    · rw [hread (by decide)]
      unfold Checks
      rw [hsum]
      rfl
    · rw [hrest x (by omega)]
      exact hechoes.message x hx
  · have h20 : (20 : UInt16).toNat = 20 := rfl
    have h28 : (28 : UInt16).toNat = 28 := rfl
    rw [UInt16.le_iff_toNat_le, h28] at hge
    rw [UInt16.toNat_sub_of_le _ _ (by rw [UInt16.le_iff_toNat_le, h20]; omega), h20]
    omega

end Stack

namespace Board

variable {K : Conf} {σ : Type*} {P : Project K σ} {b : Board K σ} {hosts : List Host}

end Board

end OpenPLC
