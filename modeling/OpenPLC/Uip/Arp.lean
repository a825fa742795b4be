import OpenPLC.Uip.State

/-! Address resolution (`uip_arp.c`), with `UIP_ARPTAB_SIZE` 8 and `UIP_ARP_MAXAGE` 120. -/

namespace OpenPLC

open Lib

/-- `struct arp_entry` -/
structure ArpEntry where
  ipaddr : IpAddr
  ethaddr : List UInt8
  time : UInt8
deriving DecidableEq

/-- `arp_table` and `arptime` -/
structure Arp where
  table : Fin 8 → ArpEntry
  arptime : UInt8

/-- `UIP_ETHTYPE_IP` -/
abbrev ethtypeIp : UInt16 := 0x0800

/-- `UIP_ETHTYPE_ARP` -/
abbrev ethtypeArp : UInt16 := 0x0806

namespace Arp

/-- `uip_arp_init` at start. -/
def init : Arp := ⟨fun _ => ⟨.zeroes, List.replicate 6 0, 0⟩, 0⟩

/-- The age of an entry, as the `int` that C computes. -/
def age (a : Arp) (i : Fin 8) : Int := (a.arptime.toNat : Int) - (a.table i).time.toNat

/-- `uip_arp_timer` -/
def timer (a : Arp) : Arp :=
  let a := { a with arptime := a.arptime + 1 }
  { a with table := fun i =>
      let e := a.table i
      if e.ipaddr.w0 ||| e.ipaddr.w1 ≠ 0 ∧ a.age i ≥ 120 then { e with ipaddr := .zeroes } else e }

/-- The entry that `uip_arp_update` fills: the one of the address, or an unused one, or the
oldest. -/
def slot (a : Arp) (ipaddr : IpAddr) : Fin 8 :=
  let known i := decide ((a.table i).ipaddr.w0 ≠ 0 ∧ (a.table i).ipaddr.w1 ≠ 0 ∧
    ipaddr = (a.table i).ipaddr)
  match (List.finRange 8).find? known with
  | some i => i
  | none =>
    match (List.finRange 8).find? fun i => (a.table i).ipaddr = .zeroes with
    | some i => i
    | none =>
      ((List.finRange 8).foldl
        (fun (p : Int × Fin 8) i => if a.age i > p.1 then (a.age i, i) else p)
        (0, ⟨0, by decide⟩)).2

/-- `uip_arp_update` -/
def update (a : Arp) (ipaddr : IpAddr) (ethaddr : List UInt8) : Arp :=
  { a with table := Function.update a.table (a.slot ipaddr) ⟨ipaddr, ethaddr, a.arptime⟩ }

/-- The hardware address for an address. -/
def lookup (a : Arp) (ipaddr : IpAddr) : Option (List UInt8) :=
  ((List.finRange 8).find? fun i => ipaddr = (a.table i).ipaddr).map fun i => (a.table i).ethaddr

end Arp

namespace Stack

variable {α : Type*}

/-- `uip_arp_ipin` -/
def arpIpin (w : Stack α) (a : Arp) : Stack α × Arp :=
  let w := { w with len := w.len - 14 }
  let src := IpAddr.load w.buf 26
  if src.mask w.netmask ≠ w.hostaddr.mask w.netmask then (w, a)
  else (w, a.update src (w.buf.read 6 6))

/-- The stores of `uip_arp_arpin` for the reply to a request. -/
def arpReply (w : Stack α) : Stack α :=
  let w := w.put 20 (le16 (htons 2))
  let w := w.put 32 (w.buf.read 22 6)
  let w := (w.put 22 w.ethaddr).put 6 w.ethaddr
  let w := w.put 0 (w.buf.read 32 6)
  let w := w.put 38 (w.buf.read 28 4)
  let w := w.put 28 w.hostaddr.bytes
  { w.put 12 (le16 (htons ethtypeArp)) with len := 42 }

/-- `uip_arp_arpin` -/
def arpArpin (w : Stack α) (a : Arp) : Stack α × Arp :=
  if w.len < 42 then ({ w with len := 0 }, a)
  else
    let w := { w with len := 0 }
    let dst := IpAddr.load w.buf 38
    let learned := a.update (.load w.buf 28) (w.buf.read 22 6)
    if w.buf.get16 20 = htons 1 then
      if dst = w.hostaddr then (w.arpReply, learned) else (w, a)
    else if w.buf.get16 20 = htons 2 then
      if dst = w.hostaddr then (w, learned) else (w, a)
    else (w, a)

/-- The ARP request for `ipaddr` that `uip_arp_out` puts in the place of a packet. -/
def arpRequest (ipaddr : IpAddr) (w : Stack α) : Stack α :=
  let w := (w.put 0 (List.replicate 6 0xff)).put 32 (List.replicate 6 0)
  let w := (w.put 6 w.ethaddr).put 22 w.ethaddr
  let w := (w.put 38 ipaddr.bytes).put 28 w.hostaddr.bytes
  let w := (w.put 20 (le16 (htons 1))).put 14 (le16 (htons 1))
  let w := (w.put 16 (le16 (htons ethtypeIp))).put 18 [6, 4]
  { w.put 12 (le16 (htons ethtypeArp)) with appdata := 54, len := 42 }

/-- The Ethernet header that `uip_arp_out` puts before a packet. -/
def ethHeader (dest : List UInt8) (w : Stack α) : Stack α :=
  let w := (w.put 0 dest).put 6 w.ethaddr
  { w.put 12 (le16 (htons ethtypeIp)) with len := w.len + 14 }

/-- `uip_arp_out` -/
def arpOut (w : Stack α) (a : Arp) : Stack α :=
  let dst := IpAddr.load w.buf 30
  if dst = .ones then w.ethHeader (List.replicate 6 0xff)
  else
    let ipaddr := if dst.mask w.netmask ≠ w.hostaddr.mask w.netmask then w.draddr else dst
    match a.lookup ipaddr with
    | some ethaddr => w.ethHeader ethaddr
    | none => w.arpRequest ipaddr

/-! The connections and the applications are as they were. -/

theorem arpIpin_same (w : Stack α) (a : Arp) :
    (w.arpIpin a).1.conns = w.conns ∧ (w.arpIpin a).1.app = w.app ∧
      (w.arpIpin a).1.appdata = w.appdata := by
  simp only [arpIpin]
  split <;> exact ⟨rfl, rfl, rfl⟩

theorem arpArpin_same (w : Stack α) (a : Arp) :
    (w.arpArpin a).1.conns = w.conns ∧ (w.arpArpin a).1.app = w.app ∧
      (w.arpArpin a).1.appdata = w.appdata := by
  simp only [arpArpin]
  split
  · exact ⟨rfl, rfl, rfl⟩
  split
  · split <;> exact ⟨rfl, rfl, rfl⟩
  split
  · split <;> exact ⟨rfl, rfl, rfl⟩
  · exact ⟨rfl, rfl, rfl⟩

theorem arpOut_same (w : Stack α) (a : Arp) :
    (w.arpOut a).conns = w.conns ∧ (w.arpOut a).app = w.app := by
  simp only [arpOut]
  split
  · exact ⟨rfl, rfl⟩
  · split <;> exact ⟨rfl, rfl⟩

theorem arpIpin_lost (w : Stack α) (a : Arp) : (w.arpIpin a).1.lost = w.lost := by
  simp only [arpIpin]
  split <;> rfl

theorem arpArpin_lost (w : Stack α) (a : Arp) : (w.arpArpin a).1.lost = w.lost := by
  simp only [arpArpin]
  split
  · rfl
  split
  · split <;> rfl
  split
  · split <;> rfl
  · rfl

theorem arpOut_lost (w : Stack α) (a : Arp) : (w.arpOut a).lost = w.lost := by
  simp only [arpOut]
  split
  · rfl
  · split <;> rfl

end Stack

end OpenPLC
