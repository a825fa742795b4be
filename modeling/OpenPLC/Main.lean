import OpenPLC.Apps.Dhcpc
import OpenPLC.Apps.Jsoncmd
import OpenPLC.Apps.Telnetd
import OpenPLC.Uip.Arp

/-! The main loop of the HILSim and OpenPLC projects (`main.c`), with `network.c`.  A run of it ends
where the stack is lost. -/

namespace OpenPLC

open Lib

/-- A project: its shell, and how the macros of the LEDs change `PORTD`. -/
structure Project (K : Conf) (σ : Type*) where
  shell : Shell σ
  modPortd : (UInt8 → UInt8) → σ → σ

/-- The HILSim project. -/
def hilsim : Project Jsoncmd.conf Jsoncmd.ShellState where
  shell := (Jsoncmd.shell Jsoncmd.physCallbacks).toShell
  modPortd f s := { s with portd := f s.portd }

/-- The OpenPLC project.  None of its functions reads `PORTD`. -/
def openplc : Project Telnetd.conf Unit where
  shell := Telnetd.shell
  modPortd _ s := s

/-- `uip_len = network_read()`, which finds the packet `bs`. -/
def Stack.networkRead {α : Type*} (bs : List UInt8) (w : Stack α) : Stack α :=
  { w with len := bs.length.toUInt16 }.put 0 bs

/-- The frame in `uip_buf`. -/
def Stack.frame {α : Type*} (w : Stack α) : List UInt8 := w.buf.read 0 w.len.toNat

/-- A frame that `network_send` sends: the bytes handed to `enc28j60PacketSend`, and the first
`uip_len` bytes of `uip_buf` at the time. -/
structure Frame where
  handed : List UInt8
  image : List UInt8
deriving DecidableEq

/-- What a turn of the loop finds: the packet that `enc28j60PacketReceive` stores in `uip_buf`, with
no more bytes than its limit, which is empty if there is none; and the values of the variables that
lie behind `uip_buf`, which the client reads when the options of a datagram lead there. -/
structure Packet where
  bytes : List UInt8
  length_le : bytes.length ≤ bufsize
  behind : Mem

/-- A packet with zeros behind `uip_buf`. -/
def Packet.ofBytes (bytes : List UInt8) (length_le : bytes.length ≤ bufsize) : Packet :=
  ⟨bytes, length_le, fun _ => 0⟩

/-- The memory before the packet is stored. -/
def Packet.around (packet : Packet) (m : Mem) : Mem :=
  fun a => if a < bufBytes then m a else packet.behind a

/-- The state of the main loop. -/
structure Board (K : Conf) (σ : Type*) where
  net : Stack (Firmware K σ)
  arp : Arp
  periodicTimer : Timer
  arpTimer : Timer
  sent : List Frame

namespace Board

variable {K : Conf} {σ : Type*} (P : Project K σ)

/-- The initialisation in `main`, with the null pointer, the hardware address, and the state of the
shell. -/
def init (null : Nat) (mac : List UInt8) (length_mac : mac.length = 6) (clock : Nat → UInt16)
    (shell : σ) : Board K σ :=
  let w := Stack.init null (.init mac length_mac clock shell)
  let (now, w) := w.clockTime
  let periodicTimer := Timer.set (clockSecond / 2) now
  let (now, w) := w.clockTime
  let arpTimer := Timer.set (clockSecond * 10) now
  let (now, w) := Stack.clockTime { w with ethaddr := mac }
  let w := Stack.dhcpcInit mac length_mac { w with app.dhcpTimer := .set (clockSecond * 600) now }
  ⟨w.dhcpcRequest, .init, periodicTimer, arpTimer, []⟩

/-- `led_on` -/
def ledOn (x : UInt8) (b : Board K σ) : Board K σ :=
  { b with net.app.server.shell := P.modPortd (· ||| (1 <<< (x + 2))) b.net.app.server.shell }

/-- `led_off` -/
def ledOff (x : UInt8) (b : Board K σ) : Board K σ :=
  { b with net.app.server.shell := P.modPortd (· &&& ~~~(1 <<< (x + 2))) b.net.app.server.shell }

/-- `network_send` -/
def networkSend (b : Board K σ) : Board K σ :=
  let w := b.net
  let handed :=
    if w.len ≤ 54 then w.buf.read 0 w.len.toNat
    else w.buf.read 0 54 ++ w.buf.read w.appdata (w.len - 54).toNat
  { b with sent := b.sent ++ [⟨handed, w.frame⟩] }

/-- The output of `uip_process`, if it returns with any. -/
def output (b : Board K σ) : Board K σ :=
  if 0 < b.net.len ∧ b.net.lost = false then { b with net := b.net.arpOut b.arp }.networkSend else b

/-- A call of `uip_process`, and its output. -/
def process (flag : ProcessFlag) (b : Board K σ) : Board K σ :=
  { b with net := b.net.uipProcess (firmwareApps P.shell) flag }.output

/-- `timer_expired` of a timer of the loop, which reads the clock. -/
def expired (t : Timer) (b : Board K σ) : Bool × Board K σ :=
  let (now, net) := b.net.clockTime
  (decide (t.Expired now), { b with net })

/-- The branch of the loop for a packet. -/
def input (b : Board K σ) : Board K σ :=
  if b.net.buf.get16 12 = htons ethtypeIp then
    let b := b.ledOn P 5
    let (net, arp) := b.net.arpIpin b.arp
    { b with net, arp }.process P .data
  else if b.net.buf.get16 12 = htons ethtypeArp then
    let b := b.ledOn P 4
    let (net, arp) := b.net.arpArpin b.arp
    let b := { b with net, arp }
    if 0 < b.net.len then b.networkSend else b
  else b

/-- `uip_periodic` and `uip_udp_periodic` of every connection. -/
def poll (b : Board K σ) : Board K σ :=
  let b := (List.finRange 10).foldl (fun b c => b.process P (.timer c)) b
  (List.finRange 10).foldl (fun b u => b.process P (.udpTimer u)) b

/-- The branch of the loop for `arp_timer`. -/
def arpTick (b : Board K σ) : Board K σ :=
  let (due, b) := b.expired b.arpTimer
  if due then { b with arpTimer := b.arpTimer.reset, arp := b.arp.timer } else b

/-- The branch of the loop for `periodic_timer`. -/
def periodic (b : Board K σ) : Board K σ :=
  let b := (b.ledOff P 4).ledOff P 5
  ({ b with periodicTimer := b.periodicTimer.reset }.poll P).arpTick

/-- The branch of the loop for `dhcp_timer`. -/
def renew (b : Board K σ) : Board K σ :=
  let b := b.ledOn P 3
  let b := { b with net := b.net.dhcpcRenew }
  { b with net.app.dhcpTimer := b.net.app.dhcpTimer.reset }

/-- `uip_len = network_read()` -/
def networkRead (packet : Packet) (b : Board K σ) : Board K σ :=
  { b with net := { b.net with buf := packet.around b.net.buf }.networkRead packet.bytes }

/-- One turn of the loop, with the packet that `network_read` finds.  There is none once the code is
lost. -/
def loop (b : Board K σ) (packet : Packet) : Board K σ :=
  if b.net.lost then b
  else
    let b := b.networkRead packet
    if 0 < b.net.len then b.input P
    else
      let (due, b) := b.expired b.periodicTimer
      if due then b.periodic P
      else
        let (due, b) := b.expired b.net.app.dhcpTimer
        if due then b.renew P else b

variable {P}

/-- From `b` to `b'` only the clock, the LEDs, the timers of the loop, and the age of the ARP
entries change. -/
structure Aside (b b' : Board K σ) : Prop where
  net : ∃ clock shell, b'.net = { b.net with
    app := { b.net.app with clock, server := { b.net.app.server with shell } } }
  arp : b'.arp = b.arp ∨ b'.arp = b.arp.timer
  sent : b'.sent = b.sent

theorem ledOn_aside (x : UInt8) (b : Board K σ) : Aside b (b.ledOn P x) :=
  ⟨⟨b.net.app.clock, _, rfl⟩, .inl rfl, rfl⟩

theorem expired_aside (t : Timer) (b : Board K σ) : Aside b (b.expired t).2 :=
  ⟨⟨_, b.net.app.server.shell, rfl⟩, .inl rfl, rfl⟩

theorem arpTick_aside (b : Board K σ) : Aside b b.arpTick := by
  simp only [arpTick]
  split
  · exact ⟨(b.expired_aside b.arpTimer).net, .inr rfl, rfl⟩
  · exact b.expired_aside b.arpTimer

/-- The periodic work, apart from what `Aside` leaves out. -/
theorem periodic_aside (P : Project K σ) (b : Board K σ) :
    ∃ b₁, Aside b b₁ ∧ Aside (b₁.poll P) (b.periodic P) := by
  set b₁ := { (b.ledOff P 4).ledOff P 5 with periodicTimer := b.periodicTimer.reset } with hb₁
  exact ⟨b₁, ⟨⟨b.net.app.clock, _, rfl⟩, .inl rfl, rfl⟩, (b₁.poll P).arpTick_aside⟩

/-- What every call of `uip_process` for a connection keeps, the periodic work keeps. -/
theorem poll_induct {M : Board K σ → Prop} (htimer : ∀ b c, M b → M (b.process P (.timer c)))
    (hudpTimer : ∀ b u, M b → M (b.process P (.udpTimer u))) {b : Board K σ} (h : M b) :
    M (b.poll P) := by
  have hconns := List.foldlRecOn (motive := M) (List.finRange 10)
    (fun b c => b.process P (.timer c)) h fun b hb c _ => htimer b c hb
  exact List.foldlRecOn _ _ hconns fun b hb u _ => hudpTimer b u hb

theorem loop_of_lost (P : Project K σ) {b : Board K σ} (h : b.net.lost = true) (packet : Packet) :
    b.loop P packet = b := if_pos h

theorem loop_of_packet (P : Project K σ) {b : Board K σ} (h : b.net.lost = false) {packet : Packet}
    (hlen : 0 < (b.networkRead packet).net.len) :
    b.loop P packet = (b.networkRead packet).input P := by
  simp only [loop, h, Bool.false_eq_true, ↓reduceIte]
  exact if_pos hlen

theorem lost_of_loop {P : Project K σ} {b : Board K σ} {packet : Packet}
    (h : (b.loop P packet).net.lost = false) : b.net.lost = false := by
  cases hlost : b.net.lost with
  | false => rfl
  | true => rwa [loop_of_lost P hlost, hlost] at h

/-- The branches of a turn: for a packet, for one of the two timers that it reads then, or none. -/
theorem loop_cases (P : Project K σ) {b : Board K σ} (h : b.net.lost = false) (packet : Packet) :
    let b₀ := b.networkRead packet
    let b₁ := (b₀.expired b₀.periodicTimer).2
    let b₂ := (b₁.expired b₁.net.app.dhcpTimer).2
    0 < b₀.net.len ∧ b.loop P packet = b₀.input P ∨
      ¬0 < b₀.net.len ∧ (b₀.expired b₀.periodicTimer).1 = true ∧
        b.loop P packet = b₁.periodic P ∨
      ¬0 < b₀.net.len ∧ (b₀.expired b₀.periodicTimer).1 = false ∧
        (b₁.expired b₁.net.app.dhcpTimer).1 = true ∧ b.loop P packet = b₂.renew P ∨
      ¬0 < b₀.net.len ∧ (b₀.expired b₀.periodicTimer).1 = false ∧
        (b₁.expired b₁.net.app.dhcpTimer).1 = false ∧ b.loop P packet = b₂ := by
  simp only [loop, h, Bool.false_eq_true, ↓reduceIte]
  generalize b.networkRead packet = b₀
  by_cases hlen : 0 < b₀.net.len
  · exact .inl ⟨hlen, if_pos hlen⟩
  · rcases b₀.expired b₀.periodicTimer with ⟨due, b₁⟩
    cases due with
    | true => exact .inr (.inl ⟨hlen, rfl, by rw [if_neg hlen, if_pos rfl]⟩)
    | false =>
      rcases b₁.expired b₁.net.app.dhcpTimer with ⟨due, b₂⟩
      simp only [hlen, Bool.false_eq_true, ↓reduceIte]
      cases due <;> simp

end Board

end OpenPLC
