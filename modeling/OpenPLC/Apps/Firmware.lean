import OpenPLC.Apps.Server
import OpenPLC.Uip.Process

/-! The state of the applications of a project, and the call of the line server from the stack. -/

namespace OpenPLC

open Lib

/-- `CLOCK_SECOND` -/
abbrev clockSecond : UInt16 := 76

/-- `struct timer` -/
structure Timer where
  start : UInt16
  interval : UInt16
deriving DecidableEq

namespace Timer

/-- `timer_set` when `clock_time()` is `now`. -/
def set (interval now : UInt16) : Timer := ⟨now, interval⟩

/-- `timer_reset` -/
def reset (t : Timer) : Timer := { t with start := t.start + t.interval }

/-- `timer_expired` when `clock_time()` is `now`. -/
def Expired (t : Timer) (now : UInt16) : Prop := now - t.start ≥ t.interval

instance (t : Timer) (now : UInt16) : Decidable (t.Expired now) :=
  inferInstanceAs (Decidable (_ ≥ _))

end Timer

namespace Dhcpc

/-- `s.state` -/
inductive State
  | initial | sending | offerReceived | configReceived
deriving DecidableEq

/-- Where the protothread `handle_dhcp` continues: at its start, or at the wait in one of its
loops. -/
inductive Point
  | start | offer | ack
deriving DecidableEq

/-- A received datagram: the memory from `uip_appdata` on, and `uip_datalen()`. -/
structure Datagram where
  mem : Mem
  len : UInt16

/-- `struct dhcpc_state`.  `mac` is what `mac_addr` points to. -/
structure Client where
  pt : Point
  state : State
  conn : Option UdpId
  timer : Timer
  ticks : UInt16
  mac : List UInt8
  length_mac : mac.length = 6
  serverid : Quad
  leaseTime : IpAddr
  ipaddr : IpAddr
  netmask : IpAddr
  dnsaddr : IpAddr
  defaultRouter : IpAddr

/-- What the client does.  Only statements about runs read these events. -/
inductive Event
  /-- `handle_dhcp` begins. -/
  | started
  /-- `parse_msg` returns `type` at one of the two waits. -/
  | parsed (at_ : Point) (d : Datagram) (type : UInt8)
  /-- `send_discover` and `send_request` build a message at an address. -/
  | discover (addr : Nat) (msg : List UInt8)
  | request (addr : Nat) (msg : List UInt8)
  /-- `dhcpc_configured` is called. -/
  | configured
  /-- `dhcpc_renew` is called. -/
  | renewed

end Dhcpc

/-- The applications: the line server, the DHCP client with `dhcp_timer`, and the readings of
`clock_time()` to come. -/
structure Firmware (K : Conf) (σ : Type*) where
  server : Server K σ
  dhcpc : Dhcpc.Client
  dhcpTimer : Timer
  clock : Nat → UInt16
  events : List Dhcpc.Event

/-- The state of the client before `dhcpc_init`. -/
def Dhcpc.Client.zero (mac : List UInt8) (length_mac : mac.length = 6) : Client where
  pt := .start
  state := .initial
  conn := none
  timer := ⟨0, 0⟩
  ticks := 0
  mac
  length_mac
  serverid := ⟨0, 0, 0, 0⟩
  leaseTime := .zeroes
  ipaddr := .zeroes
  netmask := .zeroes
  dnsaddr := .zeroes
  defaultRouter := .zeroes

/-- The applications before `dhcpc_init`. -/
def Firmware.init {K : Conf} {σ : Type*} (mac : List UInt8) (length_mac : mac.length = 6)
    (clock : Nat → UInt16) (shell : σ) : Firmware K σ where
  server := .init shell
  dhcpc := .zero mac length_mac
  dhcpTimer := ⟨0, 0⟩
  clock
  events := []

namespace Stack

variable {α : Type*}

/-- `uip_send(uip_appdata, n)` of bytes that were stored at `uip_appdata`.  Nothing is copied if
`uip_appdata` is `uip_sappdata`. -/
def uipSend (w : Stack α) (n : Nat) : Stack α :=
  let w := w.loseIf (0 < n ∧ bufBytes < w.appdata + n)
  { w with
    slen := n.toUInt16
    buf := if w.appdata = w.sappdata then w.buf else w.buf.copy w.sappdata w.appdata n }

/-- What is at `uip_sappdata` then, unless an urgent pointer led back behind it. -/
theorem uipSend_read {w : Stack α} (h : w.sappdata ≤ w.appdata) (n : Nat) :
    (w.uipSend n).buf.read w.sappdata n = w.buf.read w.appdata n := by
  change (if w.appdata = w.sappdata then w.buf else w.buf.copy w.sappdata w.appdata n).read _ n = _
  split
  · next heq => rw [heq]
  · rw [Mem.copy_eq_write _ (.inl h)]
    exact Mem.read_write_of_length _ _ (Mem.length_read ..)

/-- Nothing is lost when the bytes lie in `uip_buf`. -/
theorem uipSend_inside {w : Stack α} {n : Nat} (h : w.appdata + n ≤ bufBytes) :
    (w.uipSend n).lost = w.lost := by
  have hin : ¬(0 < n ∧ bufBytes < w.appdata + n) := fun hout => hout.2.not_ge h
  rw [uipSend, loseIf_of_not w hin]

/-- `uip_close` -/
def uipClose (w : Stack α) : Stack α := { w with flags := { close := true } }

/-- `uip_mss()` -/
def uipMss (w : Stack α) : UInt16 :=
  match w.conn with
  | some c => (w.conns c).mss
  | none => 0

/-- What a call of the application reads. -/
def call (w : Stack α) : Call where
  connected := w.flags.connected
  closed := w.flags.close
  aborted := w.flags.abort
  timedout := w.flags.timedout
  acked := w.flags.ackdata
  newdata := w.flags.newdata
  rexmit := w.flags.rexmit
  poll := w.flags.poll
  data := w.buf.read w.appdata w.len.toNat
  mss := w.uipMss.toNat

/-- The server reads data in the call that does not lie in `uip_buf`. -/
def ReadsOutside {K : Conf} {σ : Type*} (sh : Shell σ) (w : Stack (Firmware K σ)) : Prop :=
  w.app.server.Reads sh w.call ∧ bufBytes < w.appdata + w.len.toNat

instance {K : Conf} {σ : Type*} (sh : Shell σ) (w : Stack (Firmware K σ)) :
    Decidable (w.ReadsOutside sh) := inferInstanceAs (Decidable (_ ∧ _))

/-- `UIP_APPCALL` of a project with the line server: the call, and what it asks of the stack. -/
def serverAppcall {K : Conf} {σ : Type*} (sh : Shell σ) (w : Stack (Firmware K σ)) :
    Stack (Firmware K σ) :=
  let (server, reply) := w.app.server.appcall sh w.call
  let w := { w.loseIf (w.ReadsOutside sh) with app.server := server }
  let w := match reply.send with
    | some bs => (w.put w.appdata bs).uipSend bs.length
    | none => w
  if reply.close then w.uipClose else w

end Stack

end OpenPLC
