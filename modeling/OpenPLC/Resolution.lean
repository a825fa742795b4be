import OpenPLC.Frames
import OpenPLC.Uip.ArpTable

/-! The hardware addresses that the board sends to.  A packet tells the board the hardware address
of its sender; the ARP table has for an address what was heard last of it, and no frame goes to an
address that was not heard of. -/

namespace OpenPLC

open Lib

/-- A host as it is heard: its address and its hardware address. -/
abbrev Host := IpAddr × List UInt8

/-- What was heard last of each address. -/
def lastHeard (hosts : List Host) : IpAddr → Option (List UInt8) :=
  hosts.foldl (fun m host => Function.update m host.1 (some host.2)) fun _ => none

theorem lastHeard_append (hosts : List Host) (host : Host) :
    lastHeard (hosts ++ [host]) = Arp.hear (lastHeard hosts) (.update host.1 host.2) := by
  unfold lastHeard
  rw [List.foldl_append]
  rfl

/-- The broadcast address, what the table has at the start, and what was heard. -/
def hardware (hosts : List Host) : List (List UInt8) :=
  List.replicate 6 0xff :: List.replicate 6 0 :: hosts.map Prod.snd

namespace Arp

variable {a : Arp} {hosts : List Host}

/-- The table after what was heard. -/
structure Knows (a : Arp) (hosts : List Host) : Prop extends a.Caches (lastHeard hosts) where
  known : ∀ i, (a.table i).ethaddr ∈ hardware hosts

theorem Knows.timer (h : a.Knows hosts) : a.timer.Knows hosts := by
  refine ⟨h.toCaches.step .timer, fun i => ?_⟩
  rw [timer_table]
  split
  · exact h.known i
  · exact h.known i

theorem hardware_append (hosts : List Host) (host : Host) :
    ∀ mac ∈ hardware hosts, mac ∈ hardware (hosts ++ [host]) := by
  intro mac hmac
  unfold hardware at hmac ⊢
  rw [List.map_append, ← List.cons_append, ← List.cons_append]
  exact List.mem_append_left _ hmac

theorem Knows.update (h : a.Knows hosts) (host : Host) :
    (a.update host.1 host.2).Knows (hosts ++ [host]) := by
  refine ⟨?_, fun i => ?_⟩
  · rw [lastHeard_append]
    exact h.toCaches.step (.update host.1 host.2)
  · by_cases hi : i = a.slot host.1
    · rw [hi, update_self]
      unfold hardware
      simp
    · rw [update_of_ne _ _ hi]
      exact hardware_append hosts host _ (h.known i)

theorem Knows.lookup (h : a.Knows hosts) {ip : IpAddr} {mac : List UInt8}
    (hlookup : a.lookup ip = some mac) : mac ∈ hardware hosts := by
  obtain ⟨i, -, rfl⟩ := Option.map_eq_some_iff.mp hlookup
  exact h.known i

end Arp

namespace Stack

variable {α : Type*} {w : Stack α} {a : Arp} {hosts : List Host}

/-- The host that the packet in the buffer is from, if the table takes it up: one of the local
network that sends an IP packet, or one that asks for the hardware address of the board or tells its
own. -/
def hears (w : Stack α) : Option Host :=
  if w.len = 0 then none
  else if w.buf.get16 12 = htons ethtypeIp then
    let src := IpAddr.load w.buf 26
    if src.mask w.netmask ≠ w.hostaddr.mask w.netmask then none else some (src, w.buf.read 6 6)
  else if w.buf.get16 12 = htons ethtypeArp then
    if 42 ≤ w.len ∧ (w.buf.get16 20 = htons 1 ∨ w.buf.get16 20 = htons 2) ∧
        IpAddr.load w.buf 38 = w.hostaddr then
      some (.load w.buf 28, w.buf.read 22 6)
    else none
  else none

end Stack

namespace Board

variable {K : Conf} {σ : Type*} {P : Project K σ} {b b' : Board K σ} {hosts : List Host}

end Board

end OpenPLC
