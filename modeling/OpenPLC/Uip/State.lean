import Mathlib.Logic.Function.Basic
import OpenPLC.Lib.Bytes

/-! The globals of the uIP stack (`uip.c`, `uip.h`) with the options of the HILSim and OpenPLC
projects: `UIP_CONNS`, `UIP_UDP_CONNS`, and `UIP_LISTENPORTS` are 10, `UIP_BUFSIZE` is 1024, and
`UIP_REASSEMBLY`, `UIP_UDP`, `UIP_BROADCAST`, and `UIP_ACTIVE_OPEN` are on.  A pointer into
`uip_buf` is its offset, a pointer to a connection is its index, and `uip_flags` and
`tcpstateflags` are the bits that they hold.  Behind `uip_buf` lie other variables, whose values are
arbitrary; a run ends where the code changes one of them. -/

namespace OpenPLC

open Lib

/-- An index of `uip_conns`. -/
abbrev ConnId := Fin 10

/-- An index of `uip_udp_conns`. -/
abbrev UdpId := Fin 10

/-- `UIP_BUFSIZE`. -/
abbrev bufsize : Nat := 1024

/-- The number of bytes of `uip_buf`. -/
abbrev bufBytes : Nat := bufsize + 2

/-- `UIP_TCP_MSS`, which is `UIP_BUFSIZE - UIP_LLH_LEN - UIP_TCPIP_HLEN`. -/
abbrev tcpMss : UInt16 := 970

/-- `HTONS` for the little-endian byte order. -/
def htons (v : UInt16) : UInt16 := (v <<< 8) ||| (v >>> 8)

/-- A `u16_t[2]` address: its two words, as they lie in memory. -/
structure IpAddr where
  w0 : UInt16
  w1 : UInt16
deriving DecidableEq

namespace IpAddr

def zeroes : IpAddr := ⟨0, 0⟩

def ones : IpAddr := ⟨0xffff, 0xffff⟩

/-- The four bytes of an address in memory order. -/
def bytes (a : IpAddr) : List UInt8 := le16 a.w0 ++ le16 a.w1

/-- The address at `a` in memory. -/
def load (m : Mem) (a : Nat) : IpAddr := ⟨m.get16 a, m.get16 (a + 2)⟩

theorem bytes_load (m : Mem) (a : Nat) : (load m a).bytes = m.read a 4 := by
  rw [bytes, load, le16_get16, le16_get16, Mem.read_append]

/-- `uip_ipaddr`. -/
def ofBytes (a b c d : UInt8) : IpAddr :=
  ⟨htons ((a.toUInt16 <<< 8) ||| b.toUInt16), htons ((c.toUInt16 <<< 8) ||| d.toUInt16)⟩

/-- One word after the other, under a mask. -/
def mask (a m : IpAddr) : IpAddr := ⟨a.w0 &&& m.w0, a.w1 &&& m.w1⟩

end IpAddr

/-- A `u8_t[4]`, with the most significant byte first. -/
structure Quad where
  b0 : UInt8
  b1 : UInt8
  b2 : UInt8
  b3 : UInt8
deriving DecidableEq

namespace Quad

def bytes (q : Quad) : List UInt8 := [q.b0, q.b1, q.b2, q.b3]

def load (m : Mem) (a : Nat) : Quad := ⟨m a, m (a + 1), m (a + 2), m (a + 3)⟩

/-- The increment with carry of `iss` and of the acknowledgment number of a reset. -/
def succ (q : Quad) : Quad :=
  if q.b3 + 1 ≠ 0 then { q with b3 := q.b3 + 1 }
  else if q.b2 + 1 ≠ 0 then { q with b2 := q.b2 + 1, b3 := 0 }
  else if q.b1 + 1 ≠ 0 then { q with b1 := q.b1 + 1, b2 := 0, b3 := 0 }
  else ⟨q.b0 + 1, 0, 0, 0⟩

/-- `uip_add32`. -/
def add (q : Quad) (n : UInt16) : Quad :=
  let lo := n.toUInt8
  let hi := (n >>> 8).toUInt8
  let r : Quad := { q with b3 := q.b3 + lo, b2 := q.b2 + hi }
  let r :=
    if r.b2 < hi then
      if r.b1 + 1 = 0 then { r with b1 := 0, b0 := r.b0 + 1 } else { r with b1 := r.b1 + 1 }
    else r
  if r.b3 < lo then
    if r.b2 + 1 = 0 then
      if r.b1 + 1 = 0 then { r with b2 := 0, b1 := 0, b0 := r.b0 + 1 }
      else { r with b2 := 0, b1 := r.b1 + 1 }
    else { r with b2 := r.b2 + 1 }
  else r

end Quad

/-- The bits of `uip_flags`. -/
structure Flags where
  ackdata : Bool := false
  newdata : Bool := false
  rexmit : Bool := false
  poll : Bool := false
  close : Bool := false
  abort : Bool := false
  connected : Bool := false
  timedout : Bool := false
deriving DecidableEq

/-- The states of a TCP connection. -/
inductive TcpState
  | closed | synRcvd | synSent | established | finWait1 | finWait2 | closing | timeWait | lastAck
deriving DecidableEq

/-- `tcpstateflags`: the state under `UIP_TS_MASK`, and `UIP_STOPPED`. -/
structure TcpStateFlags where
  ts : TcpState
  stopped : Bool := false
deriving DecidableEq

/-- `struct uip_conn`. -/
structure Conn where
  ripaddr : IpAddr
  lport : UInt16
  rport : UInt16
  rcvNxt : Quad
  sndNxt : Quad
  len : UInt16
  mss : UInt16
  initialmss : UInt16
  sa : UInt8
  sv : UInt8
  rto : UInt8
  tcpstateflags : TcpStateFlags
  timer : UInt8
  nrtx : UInt8
deriving DecidableEq

/-- `struct uip_udp_conn`. -/
structure UdpConn where
  ripaddr : IpAddr
  lport : UInt16
  rport : UInt16
  ttl : UInt8
deriving DecidableEq

/-- The state of IP reassembly: `uip_reassbuf`, `uip_reassbitmap`, `uip_reasslen`, whether
`UIP_REASS_FLAG_LASTFRAG` is set, and `uip_reasstmr`. -/
structure Reass where
  buf : Mem
  bitmap : Mem
  len : UInt16
  lastfrag : Bool
  tmr : UInt8

/-- What passes between the stack and the peer of a connection: a segment with data, sent for the
first time or again, and the acknowledgment of outstanding data. -/
inductive WireEvent
  | sent (c : ConnId) (rexmit : Bool) (data : List UInt8)
  | ackd (c : ConnId) (len : UInt16)
deriving DecidableEq

/-- The globals of `uip.c`, and the state `app` of the program around the stack.  `buf` is the
memory from `uip_buf` on.  `wire` records events for the statements about runs, and no function
reads it.  `lost` holds once the code has entered a loop that never ends, has written behind
`uip_buf` or the arrays of `uip_reass`, or has taken the data of a call from there; nothing happens
after that. -/
structure Stack (α : Type*) where
  buf : Mem
  appdata : Nat
  sappdata : Nat
  len : UInt16
  slen : UInt16
  flags : Flags
  conn : Option ConnId
  conns : ConnId → Conn
  listenports : List UInt16
  udpConns : UdpId → UdpConn
  ipid : UInt16
  iss : Quad
  hostaddr : IpAddr
  draddr : IpAddr
  netmask : IpAddr
  ethaddr : List UInt8
  reass : Reass
  lost : Bool
  wire : List WireEvent
  app : α

/-- The application functions of a project: `UIP_APPCALL` and `UIP_UDP_APPCALL`. -/
structure Apps (α : Type*) where
  appcall : Stack α → Stack α
  udpAppcall : Stack α → Stack α

namespace Stack

variable {α : Type*}

/-- The null pointer, which does not point into `uip_buf`: it is `null` bytes behind it. -/
def nullPtr (null : Nat) : Nat := bufBytes + null

/-- `uip_init` with the other globals at zero, and `uip_listen(HTONS(23))`.  The ports that are not
in use are zero. -/
def init (null : Nat) (app : α) : Stack α where
  buf _ := 0
  appdata := nullPtr null
  sappdata := nullPtr null
  len := 0
  slen := 0
  flags := {}
  conn := none
  conns _ := ⟨.zeroes, 0, 0, ⟨0, 0, 0, 0⟩, ⟨0, 0, 0, 0⟩, 0, 0, 0, 0, 0, 0, ⟨.closed, false⟩, 0, 0⟩
  listenports := htons 23 :: List.replicate 9 0
  udpConns _ := ⟨.zeroes, 0, 0, 0⟩
  ipid := 0
  iss := ⟨0, 0, 0, 0⟩
  hostaddr := .zeroes
  draddr := .zeroes
  netmask := .zeroes
  ethaddr := []
  reass := ⟨fun _ => 0, fun _ => 0, 0, false, 0⟩
  lost := false
  wire := []
  app

/-- Change connection `c`. -/
def modConn (w : Stack α) (c : ConnId) (f : Conn → Conn) : Stack α :=
  { w with conns := Function.update w.conns c (f (w.conns c)) }

/-- Set the state of connection `c`, which clears `UIP_STOPPED`. -/
def setState (w : Stack α) (c : ConnId) (ts : TcpState) : Stack α :=
  w.modConn c fun k => { k with tcpstateflags := { ts } }

/-- Store bytes in `uip_buf`. -/
def put (w : Stack α) (a : Nat) (bs : List UInt8) : Stack α := { w with buf := w.buf.write a bs }

@[simp] theorem modConn_self (w : Stack α) (c : ConnId) (f : Conn → Conn) :
    (w.modConn c f).conns c = f (w.conns c) := Function.update_self ..

theorem modConn_of_ne (w : Stack α) {c d : ConnId} (h : d ≠ c) (f : Conn → Conn) :
    (w.modConn c f).conns d = w.conns d := Function.update_of_ne h ..

@[simp] theorem modConn_flags (w : Stack α) (c : ConnId) (f : Conn → Conn) :
    (w.modConn c f).flags = w.flags := rfl

/-- The code gets lost here if `p` holds. -/
def loseIf (p : Prop) [Decidable p] (w : Stack α) : Stack α := { w with lost := w.lost || decide p }

@[simp] theorem loseIf_app (p : Prop) [Decidable p] (w : Stack α) : (w.loseIf p).app = w.app := rfl

theorem loseIf_of_not {p : Prop} [Decidable p] (w : Stack α) (h : ¬p) : w.loseIf p = w := by
  simp [loseIf, h]

/-- Record an event. -/
def emit (w : Stack α) (e : WireEvent) : Stack α := { w with wire := w.wire ++ [e] }

/-- Connection `c` is `UIP_CLOSED`. -/
def Closed (w : Stack α) (c : ConnId) : Prop := (w.conns c).tcpstateflags = { ts := .closed }

instance (w : Stack α) (c : ConnId) : Decidable (w.Closed c) := inferInstanceAs (Decidable (_ = _))

end Stack

end OpenPLC
