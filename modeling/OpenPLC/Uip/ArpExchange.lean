import OpenPLC.Frames
import OpenPLC.Uip.ArpTable

/-! Two hosts that find each other.  The request that `uip_arp_out` makes for an address, and the
answer of the host that has it, tell each of the two the hardware address of the other; no other
host answers or learns anything. -/

namespace OpenPLC

open Lib

/-- The ARP packet in `m`, from `sender` with the address `src` to the address `dst`. -/
structure ArpTells (m : Mem) (opcode : UInt16) (sender : List UInt8) (src dst : IpAddr) : Prop where
  opcode : m.get16 20 = htons opcode
  sender : m.read 22 6 = sender
  src : IpAddr.load m 28 = src
  dst : IpAddr.load m 38 = dst

namespace Stack

variable {α β : Type*} {w : Stack α}

theorem networkRead_byte (v : Stack β) (m : Mem) {n x : Nat} (hx : x < n) :
    (v.networkRead (m.read 0 n)).buf x = m x := by
  have hlt : x < (m.read 0 n).length := by
    rw [Mem.length_read]
    exact hx
  have hwrite : v.buf.write 0 (m.read 0 n) (0 + x) = (m.read 0 n)[x] := Mem.write_apply_add hlt
  rw [Nat.zero_add] at hwrite
  unfold networkRead put
  dsimp only
  rw [hwrite]
  simp [Mem.read]

/-- What is received is what was sent. -/
theorem networkRead_tells (v : Stack β) {opcode : UInt16} {sender : List UInt8} {src dst : IpAddr}
    (hlen : w.len = 42) (h : ArpTells w.buf opcode sender src dst) :
    ArpTells (v.networkRead w.frame).buf opcode sender src dst ∧
      (v.networkRead w.frame).len = 42 := by
  have h42 : w.len.toNat = 42 := by
    rw [hlen]
    rfl
  have hread {x n : Nat} (hx : x + n ≤ 42) :
      (v.networkRead w.frame).buf.read x n = w.buf.read x n := by
    refine Mem.read_congr fun i hi => ?_
    exact networkRead_byte v w.buf (by omega)
  refine ⟨⟨get16_of_read ?_, ?_, load_of_read ?_, load_of_read ?_⟩, ?_⟩
  · rw [hread (by decide), ← h.opcode, le16_get16]
  · rw [hread (by decide), h.sender]
  · rw [hread (by decide), ← h.src, IpAddr.bytes_load]
  · rw [hread (by decide), ← h.dst, IpAddr.bytes_load]
  · change w.frame.length.toUInt16 = 42
    unfold frame
    rw [Mem.length_read, h42]
    rfl

theorem arpRequest_tells (hmac : w.ethaddr.length = 6) (ipaddr : IpAddr) :
    ArpTells (w.arpRequest ipaddr).buf 1 w.ethaddr w.hostaddr ipaddr := by
  have h2 (v : UInt16) : (le16 v).length = 2 := rfl
  have h4 (ip : IpAddr) : ip.bytes.length = 4 := rfl
  unfold arpRequest
  dsimp only [put]
  refine ⟨get16_of_read ?_, ?_, load_of_read ?_, load_of_read ?_⟩
  · simp [Mem.read_write_of_ge, h2, read_write_le16]
  · simp [Mem.read_write_of_ge, Mem.read_write_of_le, Mem.read_write_of_length, h2, hmac]
  · simp [Mem.read_write_of_ge, Mem.read_write_of_length, h2, h4]
  · simp [Mem.read_write_of_ge, Mem.read_write_of_length, h2, h4]

/-- The answer says who has the address that was asked for, and goes to the host that asked. -/
theorem arpReply_tells (hmac : w.ethaddr.length = 6) :
    ArpTells w.arpReply.buf 2 w.ethaddr w.hostaddr (.load w.buf 28) ∧
      w.arpReply.buf.read 0 6 = w.buf.read 22 6 := by
  have h2 (v : UInt16) : (le16 v).length = 2 := rfl
  have h4 (ip : IpAddr) : ip.bytes.length = 4 := rfl
  unfold arpReply
  dsimp only [put]
  refine ⟨⟨get16_of_read ?_, ?_, load_of_read ?_, load_of_read ?_⟩, ?_⟩
  · simp [Mem.read_write_of_ge, Mem.read_write_of_le, h2, hmac, read_write_le16]
  · simp [Mem.read_write_of_ge, Mem.read_write_of_le, Mem.read_write_of_length, h2, hmac]
  · simp [Mem.read_write_of_ge, Mem.read_write_of_length, h2, h4]
  · rw [IpAddr.bytes_load]
    simp [Mem.read_write_of_ge, Mem.read_write_of_le, Mem.read_write_of_length, h2, h4, hmac]
  · simp [Mem.read_write_of_ge, Mem.read_write_of_le, Mem.read_write_of_length, h2, hmac]

theorem arpArpin_request {sender : List UInt8} {src dst : IpAddr}
    (h : ArpTells w.buf 1 sender src dst) (hlen : w.len = 42) (a : Arp) :
    w.arpArpin a = if dst = w.hostaddr then
        (({ w with len := 0 } : Stack α).arpReply, a.update src sender)
      else ({ w with len := 0 }, a) := by
  have hlong : ¬w.len < 42 := by
    rw [hlen]
    decide
  unfold arpArpin
  rw [if_neg hlong]
  dsimp only
  rw [h.sender, h.src, h.dst]
  exact if_pos h.opcode

/-- The host that has the address answers, and learns who asked. -/
theorem arpArpin_answers {sender : List UInt8} {src dst : IpAddr}
    (h : ArpTells w.buf 1 sender src dst) (hlen : w.len = 42) (hdst : dst = w.hostaddr)
    (hmac : w.ethaddr.length = 6) (a : Arp) :
    ArpTells (w.arpArpin a).1.buf 2 w.ethaddr dst src ∧ (w.arpArpin a).1.len = 42 ∧
      (w.arpArpin a).1.buf.read 0 6 = sender ∧ (w.arpArpin a).2 = a.update src sender := by
  obtain ⟨hreply, hgoes⟩ := arpReply_tells (w := ({ w with len := 0 } : Stack α)) hmac
  rw [arpArpin_request h hlen a, if_pos hdst, hdst, ← h.src]
  exact ⟨hreply, rfl, hgoes.trans h.sender, rfl⟩

theorem arpArpin_ignores {sender : List UInt8} {src dst : IpAddr}
    (h : ArpTells w.buf 1 sender src dst) (hlen : w.len = 42) (hdst : dst ≠ w.hostaddr) (a : Arp) :
    (w.arpArpin a).1.len = 0 ∧ (w.arpArpin a).2 = a := by
  rw [arpArpin_request h hlen a, if_neg hdst]
  exact ⟨rfl, rfl⟩

/-- The host that asked hears the answer. -/
theorem arpArpin_learns {sender : List UInt8} {src dst : IpAddr}
    (h : ArpTells w.buf 2 sender src dst) (hlen : w.len = 42) (hdst : dst = w.hostaddr) (a : Arp) :
    w.arpArpin a = ({ w with len := 0 }, a.update src sender) := by
  have hlong : ¬w.len < 42 := by
    rw [hlen]
    decide
  have hrequest : ¬w.buf.get16 20 = htons 1 := by
    rw [h.opcode]
    decide
  unfold arpArpin
  rw [if_neg hlong]
  dsimp only
  rw [h.sender, h.src, h.dst, if_neg hrequest, if_pos h.opcode, if_pos hdst]

end Stack

namespace Arp

theorem Single.lookup_update_self {a : Arp} (hs : a.Single) {ip : IpAddr} (hip : ip.Plain)
    (mac : List UInt8) : (a.update ip mac).lookup ip = some mac := by
  rw [lookup_eq_entry, hs.entry_update_self hip]
  rfl

end Arp

namespace Stack

variable {α β : Type*} {w : Stack α} {a : Arp}

theorem arpOut_known {ip : IpAddr} {mac : List UInt8} (hdst : IpAddr.load w.buf 30 = ip)
    (hones : ip ≠ .ones) (hlocal : ip.mask w.netmask = w.hostaddr.mask w.netmask)
    (hknown : a.lookup ip = some mac) : w.arpOut a = w.ethHeader mac := by
  unfold arpOut
  dsimp only
  rw [hdst, if_neg hones, if_neg (not_not.mpr hlocal), hknown]

theorem arpOut_unknown {ip : IpAddr} (hdst : IpAddr.load w.buf 30 = ip) (hones : ip ≠ .ones)
    (hlocal : ip.mask w.netmask = w.hostaddr.mask w.netmask) (hunknown : a.lookup ip = none) :
    w.arpOut a = w.arpRequest ip := by
  unfold arpOut
  dsimp only
  rw [hdst, if_neg hones, if_neg (not_not.mpr hlocal), hunknown]

/-- Host `w` has a packet for host `v` on the local network, and does not know it.  It asks; `v`
answers `w` and knows it then, and no other host answers or learns anything.  When `w` hears the
answer, whatever came between, it knows `v`, and the next packet for `v` goes there. -/
theorem hosts_resolve (asked knows hears : List Arp.Op) (w w' : Stack α) (v : Stack β)
    (hmac : w.ethaddr.length = 6) (hmac' : v.ethaddr.length = 6) (hw : w.hostaddr.Plain)
    (hv : v.hostaddr.Plain) (hones : v.hostaddr ≠ .ones)
    (hlocal : v.hostaddr.mask w.netmask = w.hostaddr.mask w.netmask)
    (hdst : IpAddr.load w.buf 30 = v.hostaddr)
    (hunknown : (run Arp.step .init asked).lookup v.hostaddr = none)
    (hsame : w'.hostaddr = w.hostaddr) :
    let request := (w.arpOut (run Arp.step .init asked)).frame
    let answered := (v.networkRead request).arpArpin (run Arp.step .init knows)
    let heard := (w'.networkRead answered.1.frame).arpArpin (run Arp.step .init hears)
    answered.2.lookup w.hostaddr = some w.ethaddr ∧
      answered.1.len = 42 ∧ answered.1.buf.read 0 6 = w.ethaddr ∧
      (∀ (u : Stack β) (a : Arp), u.hostaddr ≠ v.hostaddr →
        ((u.networkRead request).arpArpin a).1.len = 0 ∧
          ((u.networkRead request).arpArpin a).2 = a) ∧
      heard.1.len = 0 ∧ heard.2.lookup v.hostaddr = some v.ethaddr ∧
      ∀ next : Stack α, next.hostaddr = w.hostaddr → next.netmask = w.netmask →
        IpAddr.load next.buf 30 = v.hostaddr → next.arpOut heard.2 = next.ethHeader v.ethaddr := by
  intro request answered heard
  have hrequest : request = (w.arpRequest v.hostaddr).frame := by
    change (w.arpOut _).frame = _
    rw [arpOut_unknown hdst hones hlocal hunknown]
  have htells (u : Stack β) :
      ArpTells (u.networkRead request).buf 1 w.ethaddr w.hostaddr v.hostaddr ∧
      (u.networkRead request).len = 42 := by
    rw [hrequest]
    exact networkRead_tells u rfl (arpRequest_tells hmac v.hostaddr)
  have hhost : (v.networkRead request).hostaddr = v.hostaddr := rfl
  have hhostmac : (v.networkRead request).ethaddr = v.ethaddr := rfl
  clear_value request
  obtain ⟨hanswer, hlen, hgoes, hlearned⟩ :=
    arpArpin_answers (htells v).1 (htells v).2 hhost.symm (hhostmac ▸ hmac')
      (run Arp.step .init knows)
  obtain ⟨hsaid, hsaidLen⟩ := networkRead_tells w' hlen hanswer
  have hheard : heard = ({ w'.networkRead answered.1.frame with len := 0 },
      (run Arp.step .init hears).update v.hostaddr v.ethaddr) :=
    arpArpin_learns hsaid hsaidLen hsame.symm (run Arp.step .init hears)
  have hknows : heard.2.lookup v.hostaddr = some v.ethaddr := by
    rw [hheard]
    exact (Arp.run_single hears).lookup_update_self hv v.ethaddr
  refine ⟨?_, hlen, hgoes, ?_, ?_, hknows, ?_⟩
  · change Arp.lookup (Prod.snd (arpArpin _ _)) _ = _
    rw [hlearned]
    exact (Arp.run_single knows).lookup_update_self hw w.ethaddr
  · intro u a hne
    exact arpArpin_ignores (htells u).1 (htells u).2 (Ne.symm hne) a
  · rw [hheard]
  · intro next hhost hmask hdst'
    rw [← hhost, ← hmask] at hlocal
    exact arpOut_known hdst' hones hlocal hknows

/-- A host with a packet for 10.0.0.2. -/
def askingHost : Stack Unit :=
  { init 0 () with
    buf := Mem.write (fun _ => 0) 30 [10, 0, 0, 2]
    hostaddr := .ofBytes 10 0 0 1
    netmask := .ofBytes 255 255 255 0
    ethaddr := [2, 0, 0, 0, 0, 1] }

/-- The host 10.0.0.2. -/
def askedHost : Stack Unit :=
  { init 0 () with hostaddr := .ofBytes 10 0 0 2, ethaddr := [2, 0, 0, 0, 0, 2] }

theorem hosts_resolve_first :
    let request := (askingHost.arpOut (run Arp.step .init [])).frame
    let answered := (askedHost.networkRead request).arpArpin (run Arp.step .init [])
    let heard := (askingHost.networkRead answered.1.frame).arpArpin (run Arp.step .init [])
    answered.2.lookup askingHost.hostaddr = some askingHost.ethaddr ∧
      answered.1.len = 42 ∧ answered.1.buf.read 0 6 = askingHost.ethaddr ∧
      (∀ (u : Stack Unit) (a : Arp), u.hostaddr ≠ askedHost.hostaddr →
        ((u.networkRead request).arpArpin a).1.len = 0 ∧
          ((u.networkRead request).arpArpin a).2 = a) ∧
      heard.1.len = 0 ∧ heard.2.lookup askedHost.hostaddr = some askedHost.ethaddr ∧
      ∀ next : Stack Unit, next.hostaddr = askingHost.hostaddr →
        next.netmask = askingHost.netmask → IpAddr.load next.buf 30 = askedHost.hostaddr →
          next.arpOut heard.2 = next.ethHeader askedHost.ethaddr :=
  hosts_resolve [] [] [] askingHost askingHost askedHost rfl rfl (by decide) (by decide)
    (by decide) (by decide) (by decide) rfl rfl

end Stack

end OpenPLC
