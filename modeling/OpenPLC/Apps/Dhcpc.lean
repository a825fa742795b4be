import OpenPLC.Apps.Firmware

/-! The DHCP client (`dhcpc.c`), with `dhcpc_configured` of the projects. -/

namespace OpenPLC

open Lib

namespace Dhcpc

/-- `xid` -/
def xid : List UInt8 := [0xad, 0xde, 0x12, 0x23]

/-- `magic_cookie` -/
def magicCookie : List UInt8 := [99, 130, 83, 99]

/-- `DHCPDISCOVER` -/
abbrev msgDiscover : UInt8 := 1

/-- `DHCPOFFER` -/
abbrev msgOffer : UInt8 := 2

/-- `DHCPREQUEST` -/
abbrev msgRequest : UInt8 := 3

/-- `DHCPACK` -/
abbrev msgAck : UInt8 := 5

/-! ### Messages -/

/-- `add_msg_type` -/
def addMsgType (type : UInt8) : List UInt8 := [53, 1, type]

/-- `add_server_id` -/
def addServerId (s : Client) : List UInt8 := [54, 4] ++ s.serverid.bytes

/-- `add_req_ipaddr` -/
def addReqIpaddr (s : Client) : List UInt8 := [50, 4] ++ s.ipaddr.bytes

/-- `add_req_options` -/
def addReqOptions : List UInt8 := [55, 3, 1, 3, 6]

/-- `add_end` -/
def addEnd : List UInt8 := [255]

/-- `create_msg`: the fields of `struct dhcp_msg`, with the magic cookie at the start of its
options. -/
def createMsg (s : Client) (hostaddr : IpAddr) : List UInt8 :=
  [1, 1, 6, 0] ++ xid ++ le16 0 ++ le16 (htons 0x8000) ++ hostaddr.bytes ++ List.replicate 12 0 ++
    s.mac ++ List.replicate 10 0 ++ List.replicate 64 0 ++ List.replicate 128 0 ++ magicCookie

/-- The message of `send_discover`. -/
def discoverMsg (s : Client) (hostaddr : IpAddr) : List UInt8 :=
  createMsg s hostaddr ++ addMsgType msgDiscover ++ addReqOptions ++ addEnd

/-- The message of `send_request`. -/
def requestMsg (s : Client) (hostaddr : IpAddr) : List UInt8 :=
  createMsg s hostaddr ++ addMsgType msgRequest ++ addServerId s ++ addReqIpaddr s ++ addEnd

/-- One option of `parse_options`, at `optptr`. -/
def parseOption (m : Mem) (optptr : Nat) (s : Client) (type : UInt8) : Client × UInt8 :=
  if m optptr = 1 then ({ s with netmask := .load m (optptr + 2) }, type)
  else if m optptr = 3 then ({ s with defaultRouter := .load m (optptr + 2) }, type)
  else if m optptr = 6 then ({ s with dnsaddr := .load m (optptr + 2) }, type)
  else if m optptr = 53 then (s, m (optptr + 2))
  else if m optptr = 54 then ({ s with serverid := .load m (optptr + 2) }, type)
  else if m optptr = 51 then ({ s with leaseTime := .load m (optptr + 2) }, type)
  else (s, type)

/-- The loop of `parse_options`.  Each turn moves `optptr` by two bytes or more, so it ends within
`end_ - optptr` turns. -/
def parseOptions (m : Mem) (end_ : Nat) : Nat → Nat → Client → UInt8 → Client × UInt8
  | 0, _, s, type => (s, type)
  | fuel + 1, optptr, s, type =>
    if optptr < end_ then
      if m optptr = 255 then (s, type)
      else
        let (s, type) := parseOption m optptr s type
        parseOptions m end_ fuel (optptr + (m (optptr + 1)).toNat + 2) s type
    else (s, type)

/-- The checks of `parse_msg`: the operation, the transaction, and the hardware address. -/
def Datagram.Matches (d : Datagram) (mac : List UInt8) : Prop :=
  d.mem 0 = 2 ∧ d.mem.read 4 4 = xid ∧ d.mem.read 28 mac.length = mac

instance (d : Datagram) (mac : List UInt8) : Decidable (d.Matches mac) :=
  inferInstanceAs (Decidable (_ ∧ _ ∧ _))

/-- `yiaddr` -/
def Datagram.yiaddr (d : Datagram) : IpAddr := .load d.mem 16

/-- `end` of `parse_options`.  The sum is on 16 bits: when `uip_datalen()` is negative, as in a
packet that is shorter than its headers, the end lies before the options. -/
def Datagram.end_ (d : Datagram) : Nat := (240 + d.len).toNat

/-- `parse_msg` -/
def parseMsg (d : Datagram) (s : Client) : Client × UInt8 :=
  if d.Matches s.mac then
    parseOptions d.mem d.end_ d.len.toNat 240 { s with ipaddr := d.yiaddr } 0
  else (s, 0)

end Dhcpc

namespace Stack

variable {K : Conf} {σ : Type*}

open Dhcpc

/-- Change the state of the client. -/
def modClient (w : Stack (Firmware K σ)) (f : Client → Client) : Stack (Firmware K σ) :=
  { w with app.dhcpc := f w.app.dhcpc }

/-- Record an event of the client. -/
def logClient (w : Stack (Firmware K σ)) (e : Event) : Stack (Firmware K σ) :=
  { w with app.events := w.app.events ++ [e] }

/-- `clock_time()` -/
def clockTime (w : Stack (Firmware K σ)) : UInt16 × Stack (Firmware K σ) :=
  (w.app.clock 0, { w with app.clock := fun n => w.app.clock (n + 1) })

/-- `timer_set(&s.timer, s.ticks)` -/
def setTimer (w : Stack (Firmware K σ)) : Stack (Firmware K σ) :=
  let (now, w) := w.clockTime
  w.modClient fun s => { s with timer := .set s.ticks now }

/-- `send_discover` -/
def sendDiscover (w : Stack (Firmware K σ)) : Stack (Firmware K σ) :=
  let msg := discoverMsg w.app.dhcpc w.hostaddr
  ((w.put w.appdata msg).uipSend msg.length).logClient (.discover w.appdata msg)

/-- `send_request` -/
def sendRequest (w : Stack (Firmware K σ)) : Stack (Firmware K σ) :=
  let msg := requestMsg w.app.dhcpc w.hostaddr
  ((w.put w.appdata msg).uipSend msg.length).logClient (.request w.appdata msg)

/-- The datagram that `parse_msg` finds. -/
def datagram (w : Stack (Firmware K σ)) : Datagram := ⟨fun i => w.buf (w.appdata + i), w.len⟩

/-- `parse_msg` at one of the waits, with the message type. -/
def parse (at_ : Point) (w : Stack (Firmware K σ)) : Stack (Firmware K σ) × UInt8 :=
  let (s, type) := parseMsg w.datagram w.app.dhcpc
  ((w.modClient fun _ => s).logClient (.parsed at_ w.datagram type), type)

/-- `dhcpc_configured`: the bytes of the addresses, back in the order of the stack. -/
def dhcpcConfigured (w : Stack (Firmware K σ)) : Stack (Firmware K σ) :=
  let s := w.app.dhcpc
  let addr (a : IpAddr) : IpAddr :=
    .ofBytes a.w0.toUInt8 (a.w0 >>> 8).toUInt8 a.w1.toUInt8 (a.w1 >>> 8).toUInt8
  let w := { w with ethaddr := s.mac }
  let w := { w with
    hostaddr := addr s.ipaddr, netmask := addr s.netmask, draddr := addr s.defaultRouter }
  let (now, w) := w.clockTime
  { w with app.dhcpTimer := .set (5 * 60 * clockSecond) now }.logClient .configured

/-- The first loop of `handle_dhcp` from its top to its wait. -/
def offerLoop (w : Stack (Firmware K σ)) : Stack (Firmware K σ) :=
  w.sendDiscover.setTimer.modClient fun s => { s with pt := .offer }

/-- The second loop of `handle_dhcp` from its top to its wait. -/
def ackLoop (w : Stack (Firmware K σ)) : Stack (Firmware K σ) :=
  w.sendRequest.setTimer.modClient fun s => { s with pt := .ack }

/-- The condition of the waits: a datagram, or `s.timer` has expired. -/
def ready (w : Stack (Firmware K σ)) : Bool × Stack (Firmware K σ) :=
  if w.flags.newdata then (true, w)
  else
    let (now, w) := w.clockTime
    (decide (w.app.dhcpc.timer.Expired now), w)

/-- A datagram at the first wait of `handle_dhcp`. -/
def parseOffer (w : Stack (Firmware K σ)) : Stack (Firmware K σ) :=
  let (w, type) := w.parse .offer
  if type = msgOffer then w.modClient fun s => { s with state := .offerReceived } else w

/-- A datagram at the second wait of `handle_dhcp`. -/
def parseAck (w : Stack (Firmware K σ)) : Stack (Firmware K σ) :=
  let (w, type) := w.parse .ack
  if type = msgAck then w.modClient fun s => { s with state := .configReceived } else w

/-- `handle_dhcp` from its first wait on. -/
def afterOfferWait (w : Stack (Firmware K σ)) : Stack (Firmware K σ) :=
  let w :=
    if w.flags.newdata then w.parseOffer
    else w.modClient fun s =>
      if s.ticks < clockSecond * 60 then { s with ticks := s.ticks * 2 } else s
  if w.app.dhcpc.state ≠ .offerReceived then w.offerLoop
  else (w.modClient fun s => { s with ticks := clockSecond * 3 }).ackLoop

/-- `handle_dhcp` from its second wait on. -/
def afterAckWait (w : Stack (Firmware K σ)) : Stack (Firmware K σ) :=
  if w.flags.newdata then
    let w := w.parseAck
    if w.app.dhcpc.state ≠ .configReceived then w.ackLoop
    else w.dhcpcConfigured.modClient fun s => { s with pt := .start }
  else if w.app.dhcpc.ticks ≤ clockSecond * 10 then
    (w.modClient fun s => { s with ticks := s.ticks + clockSecond }).ackLoop
  else w.modClient fun s => { s with pt := .start }

/-- `handle_dhcp` -/
def handleDhcp (w : Stack (Firmware K σ)) : Stack (Firmware K σ) :=
  match w.app.dhcpc.pt with
  | .start =>
    let w := w.logClient .started
    (w.modClient fun s => { s with state := .sending, ticks := clockSecond * 5 }).offerLoop
  | .offer =>
    let (go, w) := w.ready
    if go then w.afterOfferWait else w
  | .ack =>
    let (go, w) := w.ready
    if go then w.afterAckWait else w

/-- `dhcpc_appcall` -/
def dhcpcAppcall (w : Stack (Firmware K σ)) : Stack (Firmware K σ) :=
  if w.app.dhcpc.conn ≠ none ∧ w.app.dhcpc.state ≠ .configReceived then w.handleDhcp else w

/-- `dhcpc_renew` -/
def dhcpcRenew (w : Stack (Firmware K σ)) : Stack (Firmware K σ) :=
  if w.lost then w else ({ w with hostaddr := .ofBytes 0 0 0 0 }.logClient .renewed).handleDhcp

/-- `dhcpc_request` -/
def dhcpcRequest (w : Stack (Firmware K σ)) : Stack (Firmware K σ) :=
  if w.app.dhcpc.state = .initial then { w with hostaddr := .ofBytes 0 0 0 0 } else w

/-- `dhcpc_init`.  The connection is the first one that `uip_udp_new` finds unused, and
`uip_udp_bind` sets its local port. -/
def dhcpcInit (mac : List UInt8) (hmac : mac.length = 6) (w : Stack (Firmware K σ)) :
    Stack (Firmware K σ) :=
  let w := w.modClient fun s => { s with mac, length_mac := hmac, state := .initial }
  let conn := (List.finRange 10).find? fun u => (w.udpConns u).lport = 0
  let w := w.modClient fun s => { s with conn, pt := .start }
  match conn with
  | some u =>
    let k : UdpConn := ⟨.ofBytes 255 255 255 255, htons 68, htons 67, 64⟩
    { w with udpConns := Function.update w.udpConns u k }
  | none => w

end Stack

/-- The applications of a project with the line server and the client. -/
def firmwareApps {K : Conf} {σ : Type*} (sh : Shell σ) : Apps (Firmware K σ) :=
  ⟨Stack.serverAppcall sh, Stack.dhcpcAppcall⟩

end OpenPLC
