import OpenPLC.Apps.Commands
import OpenPLC.Apps.Events
import OpenPLC.Main

/-! The outputs over runs of the main loop.  `phys_out` drives all bits of `PORTC` and `PORTD` with
the values of a `setvalues` command, and the macros of the LEDs change three bits of `PORTD`. -/

namespace OpenPLC

open Lib

namespace Server

variable {K : Conf} {σ : Type*} {s t u : Server K σ}

/-- From `s` to `t` the shell is called with these buffers, and has no other state than they
give. -/
structure Hears (sh : Shell σ) (s t : Server K σ) (bufs : List (List UInt8)) : Prop where
  inputs : t.inputs = s.inputs ++ bufs
  shell : t.shell = bufs.foldl (fun st buf => (sh.input (cstr buf) st).2) s.shell

variable {sh : Shell σ} {bufs bufs' : List (List UInt8)}

theorem Hears.refl (sh : Shell σ) (s : Server K σ) : Hears sh s s [] := ⟨by simp, rfl⟩

theorem Hears.trans (h : Hears sh s t bufs) (h' : Hears sh t u bufs') :
    Hears sh s u (bufs ++ bufs') where
  inputs := by rw [h'.inputs, h.inputs, List.append_assoc]
  shell := by rw [h'.shell, h.shell, List.foldl_append]

theorem SameParser.hears {Q : Prop} (h : SameParser Q s t) (sh : Shell σ) : Hears sh s t [] :=
  ⟨by rw [h.inputs, List.append_nil], h.shell⟩

theorem shellInput_hears (sh : Shell σ) (s : Server K σ) :
    Hears sh s (s.shellInput sh) [s.buf.read 0 K.linelen] :=
  ⟨s.shellInput_inputs sh,
    (shellCalls_steps (Q := True) _ fun _ => trivial).sameParser.shell⟩

theorem getChar_hears (sh : Shell σ) (c : UInt8) (s : Server K σ) :
    ∃ bufs, Hears sh s (s.getChar sh c) bufs := by
  rw [getChar_eq]
  split
  · exact ⟨[], .refl sh s⟩
  split
  · have h := shellInput_hears sh { s with buf := endLine K (s.buf.write s.bufptr [c]) s.bufptr }
    exact ⟨_, h.inputs, h.shell⟩
  · exact ⟨[], (List.append_nil _).symm, rfl⟩

theorem newChar_hears (sh : Shell σ) (c : UInt8) (s : Server K σ) :
    ∃ bufs, Hears sh s (s.newChar sh c) bufs := by
  rcases s.newChar_cases sh c with ⟨state, -, hs⟩ | ⟨option, hs⟩ | ⟨-, hs⟩ | ⟨-, hs⟩
  · rw [hs]
    exact ⟨[], (List.append_nil _).symm, rfl⟩
  · have h := (sendopt_step (Q := True) option c s).sameParser.hears sh
    rw [hs]
    exact ⟨[], h.inputs, h.shell⟩
  · obtain ⟨bufs, h⟩ := getChar_hears sh c s
    rw [hs]
    exact ⟨bufs, h.inputs, h.shell⟩
  · rw [hs]
    exact getChar_hears sh c s

theorem newdata_hears (sh : Shell σ) (data : List UInt8) (s : Server K σ) :
    ∃ bufs, Hears sh s (s.newdata sh data).1 bufs := by
  induction data generalizing s with
  | nil => exact ⟨[], .refl sh s⟩
  | cons c cs ih =>
    simp only [newdata]
    split
    · obtain ⟨bufs, h⟩ := newChar_hears sh c s
      obtain ⟨bufs', h'⟩ := ih (s.newChar sh c)
      exact ⟨_, h.trans h'⟩
    · exact ⟨[], .refl sh s⟩

theorem appcall_hears (sh : Shell σ) (call : Call) (s : Server K σ) :
    ∃ bufs, Hears sh s (s.appcall sh call).1 bufs := by
  have hconnected : Hears sh s (if call.connected then s.connected sh else s) [] := by
    split
    · have h : SameParser True { s with lines := .empty, bufptr := 0, state := .normal }
          (s.connected sh) := (s.connected_steps fun _ => trivial).sameParser
      exact ⟨h.inputs.trans (List.append_nil _).symm, h.shell⟩
    · exact .refl sh s
  have hbefore : Hears sh s (s.beforeData sh call) [] :=
    hconnected.trans ((beforeData_sameParser sh call s).hears sh)
  by_cases hs : (s.beforeData sh call).state = .close
  · rw [(beforeData_sameParser sh call s).state.resolve_right (·.1)] at hs
    simp only [appcall, hs, ↓reduceIte]
    exact ⟨[], hconnected.inputs, hconnected.shell⟩
  · obtain ⟨bufs, hdata⟩ : ∃ bufs, Hears sh s (if call.newdata then
        ((s.beforeData sh call).newdata sh call.data).1 else s.beforeData sh call) bufs := by
      split
      · obtain ⟨bufs, h⟩ := newdata_hears sh call.data (s.beforeData sh call)
        exact ⟨_, hbefore.trans h⟩
      · exact ⟨[], hbefore⟩
    refine ⟨bufs, ?_⟩
    rw [appcall_eq hs]
    dsimp only
    split
    · exact ⟨hdata.inputs, hdata.shell⟩
    · exact hdata

end Server

namespace Stack

variable {K : Conf} {σ : Type*} {w : Stack (Firmware K σ)}

theorem uipProcess_hears (sh : Shell σ) (hp : w.Passive) (flag : ProcessFlag) :
    ∃ bufs, Server.Hears sh w.app.server (w.uipProcess (firmwareApps sh) flag).app.server bufs := by
  have hstep : w.uipProcess (firmwareApps sh) flag = w.netStep sh (.process flag) := rfl
  rw [hstep]
  rcases netStep_cases sh hp (.process flag) with
    ⟨-, c, w₁, hm, hs⟩ | ⟨c, w₀, after, -, hm, -, -, hw⟩
  · rw [hs.server, hm.app]
    exact ⟨[], .refl sh _⟩
  · rw [hw, (hm.appcall sh after).1]
    exact Server.appcall_hears ..

end Stack

/-- What the main loop does in a turn: handle an IP packet, an ARP packet, or any other packet, or
go through the periodic work, or renew the lease, or nothing. -/
inductive Turn
  | ip | arp | other | periodic | renew | idle
deriving DecidableEq

/-- A use of `led_on` or `led_off`. -/
inductive Led
  | on (x : Fin 6)
  | off (x : Fin 6)
deriving DecidableEq

/-- What the macro makes of `PORTD`. -/
def Led.mod : Led → UInt8 → UInt8
  | .on x, p => p ||| (1 <<< (UInt8.ofNat x + 2))
  | .off x, p => p &&& ~~~(1 <<< (UInt8.ofNat x + 2))

/-- The LEDs that change at the start of a turn. -/
def Turn.leds : Turn → List Led
  | .ip => [.on 5]
  | .arp => [.on 4]
  | .periodic => [.off 4, .off 5]
  | .renew => [.on 3]
  | .other | .idle => []

/-- What changes the state of the shell: an LED, or a call of `shell_input` with a buffer. -/
inductive PortEvent
  | led (l : Led)
  | command (buf : List UInt8)
deriving DecidableEq

namespace Board

variable {K : Conf} {σ : Type*} (P : Project K σ)

/-- The state of the shell after an event. -/
def portStep (st : σ) : PortEvent → σ
  | .led l => P.modPortd l.mod st
  | .command buf => (P.shell.input (cstr buf) st).2

/-- The turn of the main loop with the packet that `network_read` finds. -/
def turn (b : Board K σ) (packet : Packet) : Turn :=
  let b := b.networkRead packet
  if 0 < b.net.len then
    if b.net.buf.get16 12 = htons ethtypeIp then .ip
    else if b.net.buf.get16 12 = htons ethtypeArp then .arp
    else .other
  else
    let (due, b) := b.expired b.periodicTimer
    if due then .periodic
    else if (b.expired b.net.app.dhcpTimer).1 then .renew
    else .idle

/-- The events of a turn: its LEDs, and the buffers with which it calls `shell_input`. -/
def turnEvents (b : Board K σ) (packet : Packet) : List PortEvent :=
  (b.turn packet).leds.map .led ++
    ((b.loop P packet).net.app.server.inputs.drop b.net.app.server.inputs.length).map .command

/-- The events of a run of the main loop. -/
def portEvents (b : Board K σ) (packets : List Packet) : List PortEvent :=
  (outputs (loop P) (turnEvents P) b packets).flatten

variable {P} {b b' b'' : Board K σ}

/-- From `b` to `b'` the state of the shell changes by calls of `shell_input` alone. -/
structure Hears (P : Project K σ) (b b' : Board K σ) : Prop where
  passive : b'.net.Passive
  server : ∃ bufs, b.net.app.server.Hears P.shell b'.net.app.server bufs

theorem Hears.trans (h : Hears P b b') (h' : b'.net.Passive → Hears P b' b'') : Hears P b b'' := by
  obtain ⟨bufs, hs⟩ := h.server
  obtain ⟨bufs', hs'⟩ := (h' h.passive).server
  exact ⟨(h' h.passive).passive, _, hs.trans hs'⟩

theorem hears_of_eq (hp : b.net.Passive) (hconns : b'.net.conns = b.net.conns)
    (hserver : b'.net.app.server = b.net.app.server) : Hears P b b' :=
  ⟨fun c => by simpa only [Stack.ts, hconns] using hp c, [], by
    rw [hserver]
    exact .refl P.shell _⟩

theorem output_hears (hp : b.net.Passive) : Hears P b b.output := by
  simp only [output]
  split
  · have hsame := b.net.arpOut_same b.arp
    exact hears_of_eq hp hsame.1 (congrArg (·.server) hsame.2)
  · exact hears_of_eq hp rfl rfl

theorem process_hears (hp : b.net.Passive) (flag : ProcessFlag) : Hears P b (b.process P flag) := by
  have hprocess : Hears P b { b with net := b.net.uipProcess (firmwareApps P.shell) flag } :=
    ⟨Stack.netStep_passive P.shell hp (.process flag), Stack.uipProcess_hears P.shell hp flag⟩
  exact hprocess.trans output_hears

theorem poll_hears (hp : b.net.Passive) : Hears P b (b.poll P) :=
  poll_induct (M := Hears P b) (fun _ c h => h.trans fun hp => process_hears hp (.timer c))
    (fun _ u h => h.trans fun hp => process_hears hp (.udpTimer u)) (hears_of_eq hp rfl rfl)

theorem arpTick_hears (hp : b.net.Passive) : Hears P b b.arpTick := by
  simp only [arpTick]
  split
  · exact hears_of_eq hp rfl rfl
  · exact hears_of_eq hp rfl rfl

/-- The state of the shell after LEDs change. -/
def light (P : Project K σ) (ls : List Led) (st : σ) : σ :=
  ls.foldl (fun st l => P.modPortd l.mod st) st

/-- `b'` is `b` after some LEDs change. -/
structure Lit (P : Project K σ) (ls : List Led) (b b' : Board K σ) : Prop where
  passive : b'.net.Passive
  inputs : b'.net.app.server.inputs = b.net.app.server.inputs
  shell : b'.net.app.server.shell = light P ls b.net.app.server.shell

theorem Lit.ledOn {ls : List Led} (h : Lit P ls b b') (x : Fin 6) :
    Lit P (ls ++ [.on x]) b (b'.ledOn P (UInt8.ofNat x)) where
  passive := h.passive
  inputs := h.inputs
  shell := by
    simp only [light, List.foldl_append, Board.ledOn]
    rw [h.shell]
    rfl

theorem Lit.ledOff {ls : List Led} (h : Lit P ls b b') (x : Fin 6) :
    Lit P (ls ++ [.off x]) b (b'.ledOff P (UInt8.ofNat x)) where
  passive := h.passive
  inputs := h.inputs
  shell := by
    simp only [light, List.foldl_append, Board.ledOff]
    rw [h.shell]
    rfl

theorem input_lit (h : Lit P [] b b') :
    ∃ b₁, Lit P (if b'.net.buf.get16 12 = htons ethtypeIp then Turn.ip
        else if b'.net.buf.get16 12 = htons ethtypeArp then .arp else .other).leds b b₁ ∧
      Hears P b₁ (b'.input P) := by
  simp only [input]
  split
  · have hled := h.ledOn 5
    have hsame := (b'.ledOn P 5).net.arpIpin_same (b'.ledOn P 5).arp
    exact ⟨_, hled, (hears_of_eq hled.passive hsame.1 (congrArg (·.server) hsame.2.1)).trans
      fun hp => process_hears hp .data⟩
  split
  · have hled := h.ledOn 4
    have hsame := (b'.ledOn P 4).net.arpArpin_same (b'.ledOn P 4).arp
    have hin : Hears P (b'.ledOn P 4) { b'.ledOn P 4 with
        net := ((b'.ledOn P 4).net.arpArpin (b'.ledOn P 4).arp).1
        arp := ((b'.ledOn P 4).net.arpArpin (b'.ledOn P 4).arp).2 } :=
      hears_of_eq hled.passive hsame.1 (congrArg (·.server) hsame.2.1)
    refine ⟨_, hled, hin.trans fun hp => ?_⟩
    split
    · exact hears_of_eq hp rfl rfl
    · exact hears_of_eq hp rfl rfl
  · exact ⟨_, h, hears_of_eq h.passive rfl rfl⟩

theorem periodic_lit (h : Lit P [] b b') :
    ∃ b₁, Lit P Turn.periodic.leds b b₁ ∧ Hears P b₁ (b'.periodic P) := by
  have hled := (h.ledOff 4).ledOff 5
  have hreset : Lit P Turn.periodic.leds b
      { (b'.ledOff P 4).ledOff P 5 with periodicTimer := b'.periodicTimer.reset } :=
    ⟨hled.passive, hled.inputs, hled.shell⟩
  exact ⟨_, hreset, (poll_hears hreset.passive).trans fun hp => arpTick_hears hp⟩

theorem renew_lit (h : Lit P [] b b') :
    ∃ b₁, Lit P Turn.renew.leds b b₁ ∧ Hears P b₁ (b'.renew P) := by
  have hled := h.ledOn 3
  have hsame := (b'.ledOn P 3).net.dhcpcRenew_sameServer
  exact ⟨_, hled, hears_of_eq hled.passive hsame.conns hsame.server⟩

theorem Lit.expired {ls : List Led} (h : Lit P ls b b') (t : Timer) :
    Lit P ls b (b'.expired t).2 := ⟨h.passive, h.inputs, h.shell⟩

/-- A turn changes its LEDs, and then only calls of `shell_input` change the state of the shell. -/
theorem loop_lit (hp : b.net.Passive) (hlost : b.net.lost = false) (packet : Packet) :
    ∃ b₁, Lit P (b.turn packet).leds b b₁ ∧ Hears P b₁ (b.loop P packet) := by
  have hread : Lit P [] b (b.networkRead packet) := ⟨hp, rfl, rfl⟩
  have hcases := loop_cases P hlost packet
  simp only [turn]
  generalize b.networkRead packet = b₀ at *
  have h₁ := hread.expired b₀.periodicTimer
  have h₂ := h₁.expired (b₀.expired b₀.periodicTimer).2.net.app.dhcpTimer
  rcases hcases with ⟨hlen, hloop⟩ | ⟨hlen, hdue, hloop⟩ | ⟨hlen, hnot, hdue, hloop⟩ |
    ⟨hlen, hnot, hdue, hloop⟩
  · rw [hloop, if_pos hlen]
    exact input_lit hread
  · simp only [hloop, hlen, hdue, ↓reduceIte]
    exact periodic_lit h₁
  · simp only [hloop, hlen, hnot, hdue, Bool.false_eq_true, ↓reduceIte]
    exact renew_lit h₂
  · simp only [hloop, hlen, hnot, hdue, Bool.false_eq_true, ↓reduceIte]
    exact ⟨_, h₂, hears_of_eq h₂.passive rfl rfl⟩

theorem loop_passive (hp : b.net.Passive) (hlost : b.net.lost = false) (packet : Packet) :
    (b.loop P packet).net.Passive := by
  obtain ⟨b₁, -, h⟩ := loop_lit (P := P) hp hlost packet
  exact h.passive

theorem loop_shell (hp : b.net.Passive) (hlost : b.net.lost = false) (packet : Packet) :
    (b.loop P packet).net.app.server.shell =
      run (portStep P) b.net.app.server.shell (b.turnEvents P packet) := by
  obtain ⟨b₁, hlit, ⟨-, bufs, hhears⟩⟩ := loop_lit (P := P) hp hlost packet
  have hdrop :
      (b.loop P packet).net.app.server.inputs.drop b.net.app.server.inputs.length = bufs := by
    rw [hhears.inputs, hlit.inputs, List.drop_left]
  rw [turnEvents, hdrop, run_append, hhears.shell, hlit.shell]
  simp only [run, light, List.foldl_map, portStep]

/-- The state of the shell after a run of the main loop is the one after its events. -/
theorem run_shell (hp : b.net.Passive) {packets : List Packet}
    (hlost : (run (loop P) b packets).net.lost = false) :
    (run (loop P) b packets).net.app.server.shell =
      run (portStep P) b.net.app.server.shell (b.portEvents P packets) := by
  have hbefore : Along (loop P) (fun b _ => b.net.lost = false) b packets :=
    along_of_run (P := fun b : Board K σ => b.net.lost = false) (fun _ _ => lost_of_loop) hlost
  have hpassive : Along (loop P) (fun b _ => b.net.Passive) b packets :=
    hbefore.along_invariant (P := fun b : Board K σ => b.net.Passive)
      (fun _ packet hp hlost => loop_passive hp hlost packet) hp
  exact (hpassive.and hbefore).run_flatten_outputs
    (f := fun b : Board K σ => b.net.app.server.shell)
    fun _ packet h => loop_shell h.1 h.2 packet

end Board

namespace Jsoncmd

/-- Bit `i` of both ports is set exactly when `v i` is not zero. -/
def Shows (v : Fin 8 → Int) (st : ShellState) : Prop :=
  ∀ i : Fin 8, st.portc.toBitVec.getLsbD i = decide (v i ≠ 0) ∧
    st.portd.toBitVec.getLsbD i = decide (v i ≠ 0)

/-- The shell takes the line in the buffer for `setvalues`. -/
def SetsOutputs (low buf : List UInt8) : Prop :=
  let tok := (Lib.afterChar (cstr buf) 34).getD low
  strncmpEq tok (ascii "getvalues") 4 = false ∧ strncmpEq tok (ascii "setvalues") 4 = true

instance (low buf : List UInt8) : Decidable (SetsOutputs low buf) :=
  inferInstanceAs (Decidable (_ ∧ _))

end Jsoncmd

/-- An LED goes on only where the value is not zero, and off only where it is zero. -/
def PortEvent.Agrees (v : Fin 8 → Int) : PortEvent → Prop
  | .led (.on x) => v (x.natAdd 2) ≠ 0
  | .led (.off x) => v (x.natAdd 2) = 0
  | .command _ => True

instance (v : Fin 8 → Int) : ∀ e : PortEvent, Decidable (e.Agrees v)
  | .led (.on _) => inferInstanceAs (Decidable (_ ≠ _))
  | .led (.off _) => inferInstanceAs (Decidable (_ = _))
  | .command _ => instDecidableTrue

theorem Led.on_bit (x : Fin 6) (p : UInt8) (i : Fin 8) :
    ((Led.on x).mod p).toBitVec.getLsbD i = (p.toBitVec.getLsbD i || decide (i = x.natAdd 2)) := by
  have hmask : ∀ (x : Fin 6) (i : Fin 8), ((1 : UInt8) <<< (UInt8.ofNat x + 2)).toBitVec.getLsbD i =
      decide (i = x.natAdd 2) := by decide
  rw [Led.mod, UInt8.toBitVec_or, BitVec.getLsbD_or, hmask]

theorem Led.off_bit (x : Fin 6) (p : UInt8) (i : Fin 8) :
    ((Led.off x).mod p).toBitVec.getLsbD i =
      (p.toBitVec.getLsbD i && !decide (i = x.natAdd 2)) := by
  have hmask : ∀ (x : Fin 6) (i : Fin 8),
      (~~~((1 : UInt8) <<< (UInt8.ofNat x + 2))).toBitVec.getLsbD i =
        !decide (i = x.natAdd 2) := by decide
  rw [Led.mod, UInt8.toBitVec_and, BitVec.getLsbD_and, hmask]

namespace Jsoncmd

open Board

variable {v : Fin 8 → Int} {st : ShellState}

/-- The ports go on showing the values after an LED changes if and only if it agrees with them. -/
theorem shows_led_iff (h : Shows v st) (l : Led) :
    Shows v (portStep hilsim st (.led l)) ↔ (PortEvent.led l).Agrees v := by
  cases l with
  | on x =>
    constructor
    · intro h'
      have hbit := (h' (x.natAdd 2)).2
      simp only [portStep, hilsim, Led.on_bit] at hbit
      simpa [PortEvent.Agrees] using hbit
    · intro hv i
      refine ⟨(h i).1, ?_⟩
      simp only [portStep, hilsim, Led.on_bit, (h i).2]
      by_cases hi : i = x.natAdd 2
      · subst hi
        simpa [PortEvent.Agrees] using hv
      · simp [hi]
  | off x =>
    constructor
    · intro h'
      have hbit := (h' (x.natAdd 2)).2
      simp only [portStep, hilsim, Led.off_bit] at hbit
      simpa [PortEvent.Agrees] using hbit
    · intro hv i
      refine ⟨(h i).1, ?_⟩
      simp only [portStep, hilsim, Led.off_bit, (h i).2]
      by_cases hi : i = x.natAdd 2
      · subst hi
        simpa [PortEvent.Agrees] using hv
      · simp [hi]

/-- The shell reads the token of the line or the string at address 1, and keeps the ports. -/
theorem deref_eq (p : Option (List UInt8)) (st : ShellState) :
    (deref p st).1 = p.getD st.low ∧ (deref p st).2.portc = st.portc ∧
      (deref p st).2.portd = st.portd ∧ (deref p st).2.low = st.low := by
  cases p <;> exact ⟨rfl, rfl, rfl, rfl⟩

theorem scanValues_low (is : List (Fin 8)) (cmd : Option (List UInt8)) (st : ShellState) :
    (scanValues is cmd st).low = st.low := by
  induction is generalizing cmd st with
  | nil => rfl
  | cons i is ih =>
    rw [scanValues, ih]
    have hlow := (deref_eq cmd st).2.2.2
    split
    · exact hlow
    · exact hlow

theorem physOut_low (st : ShellState) : (physOut st).low = st.low := rfl

/-- Any other line leaves the ports as they are. -/
theorem command_ports {buf : List UInt8} (h : ¬SetsOutputs st.low buf) :
    (portStep hilsim st (.command buf)).portc = st.portc ∧
      (portStep hilsim st (.command buf)).portd = st.portd := by
  simp only [portStep, hilsim, shell, shellInput]
  obtain ⟨htok, hc, hd, -⟩ := deref_eq (Lib.afterChar (cstr buf) 34) st
  rw [SetsOutputs, ← htok] at h
  generalize deref (Lib.afterChar (cstr buf) 34) st = p at *
  by_cases hget : strncmpEq p.1 (ascii "getvalues") 4 = true
  · rw [if_pos hget]
    exact ⟨hc, hd⟩
  · have hset : ¬strncmpEq p.1 (ascii "setvalues") 4 = true := fun hset =>
      h ⟨by simpa using hget, hset⟩
    rw [if_neg hget, if_neg hset]
    exact ⟨hc, hd⟩

theorem portStep_low (st : ShellState) (e : PortEvent) : (portStep hilsim st e).low = st.low := by
  cases e with
  | led => rfl
  | command buf =>
    simp only [portStep, hilsim, shell, shellInput]
    obtain ⟨-, -, -, hlow⟩ := deref_eq (Lib.afterChar (cstr buf) 34) st
    generalize deref (Lib.afterChar (cstr buf) 34) st = p at *
    by_cases hget : strncmpEq p.1 (ascii "getvalues") 4 = true
    · rw [if_pos hget]
      exact hlow
    rw [if_neg hget]
    by_cases hset : strncmpEq p.1 (ascii "setvalues") 4 = true
    · rw [if_pos hset]
      simp only [physCallbacks]
      rw [physOut_low, scanValues_low, hlow]
    · rw [if_neg hset]
      exact hlow

theorem run_low (st : ShellState) (es : List PortEvent) :
    (run (portStep hilsim) st es).low = st.low :=
  run_invariant (P := fun t : ShellState => t.low = st.low)
    (fun t e h => (portStep_low t e).trans h) rfl es

/-- Until the next `setvalues` the ports show the values in every state if and only if every LED
agrees with them. -/
theorem shows_iff {es : List PortEvent} (h : Shows v st)
    (hnext : ∀ buf, .command buf ∈ es → ¬SetsOutputs st.low buf) :
    (∀ m, m <+: es → Shows v (run (portStep hilsim) st m)) ↔ ∀ e ∈ es, e.Agrees v := by
  induction es generalizing st with
  | nil => simpa using h
  | cons e es ih =>
    have hstep : Shows v (portStep hilsim st e) ↔ e.Agrees v := by
      cases e with
      | led l => exact shows_led_iff h l
      | command buf =>
        obtain ⟨hc, hd⟩ := command_ports (hnext buf (by simp))
        refine iff_of_true (fun i => ?_) trivial
        rw [hc, hd]
        exact h i
    have hrest (hagrees : e.Agrees v) := ih (hstep.mpr hagrees) fun buf hbuf => by
      rw [portStep_low]
      exact hnext buf (by simp [hbuf])
    rw [List.forall_mem_cons]
    constructor
    · intro hall
      have hagrees := hstep.mp (hall [e] ⟨es, rfl⟩)
      exact ⟨hagrees, (hrest hagrees).mp fun m hm =>
        hall (e :: m) (List.cons_prefix_cons.mpr ⟨rfl, hm⟩)⟩
    · rintro ⟨hagrees, htail⟩ m hm
      cases m with
      | nil => exact h
      | cons e' m =>
        obtain ⟨rfl, hm'⟩ := List.cons_prefix_cons.mp hm
        exact (hrest hagrees).mpr htail m hm'

/-- In every run of the main loop that stays in its memory, from a `setvalues` to the next, both
ports show its values in every state if and only if every LED that changes in between agrees with
them. -/
theorem outputs_hold_iff (null : Nat) (mac : List UInt8) (hmac : mac.length = 6)
    (clock : Nat → UInt16) (st : ShellState) (packets : List Packet)
    (hlost : (run (loop hilsim) (.init null mac hmac clock st) packets).net.lost = false)
    (pre mid post : List PortEvent) (buf : List UInt8) (ns : Fin 8 → Numeral)
    (hevents : (Board.init null mac hmac clock st).portEvents hilsim packets =
      pre ++ .command buf :: (mid ++ post))
    (hsets : Sets (cstr buf) ns)
    (hnext : ∀ buf', .command buf' ∈ mid → ¬SetsOutputs st.low buf') :
    let v := fun i => (ns i).value
    (run (loop hilsim) (.init null mac hmac clock st) packets).net.app.server.shell =
        run (portStep hilsim) st (pre ++ .command buf :: (mid ++ post)) ∧
      ((∀ m, m <+: mid → Shows v (run (portStep hilsim) st (pre ++ .command buf :: m))) ↔
        ∀ e ∈ mid, e.Agrees v) := by
  intro v
  have hp : (Board.init (K := conf) null mac hmac clock st).net.Passive := fun _ => ⟨rfl, nofun⟩
  have hshows : Shows v (portStep hilsim (run (portStep hilsim) st pre) (.command buf)) :=
    (hsets.stores (zero_not_mem_cstr buf) _).2
  refine ⟨hevents ▸ run_shell hp hlost, ?_⟩
  simp only [run_append, run_cons]
  refine shows_iff hshows fun buf' hbuf' => ?_
  rw [portStep_low, run_low]
  exact hnext buf' hbuf'

/-- The ACK of the SYN in answer to `synFrame`, with the line `{"setvalues":[0,0,0,0,0,0,0,0]}`. -/
def zerosFrame : List UInt8 :=
  [0, 0, 0, 0, 0, 0, 0, 0, 0, 0, 0, 0, 8, 0, 69, 0, 0, 72, 0, 0, 0, 0, 64, 6, 102, 174, 10, 0, 0,
    2, 10, 0, 0, 1, 4, 0, 0, 23, 0, 0, 0, 1, 0, 0, 0, 1, 80, 16, 2, 0, 175, 174, 0, 0, 123, 34,
    115, 101, 116, 118, 97, 108, 117, 101, 115, 34, 58, 91, 48, 44, 48, 44, 48, 44, 48, 44, 48,
    44, 48, 44, 48, 44, 48, 93, 125, 10]

/-- The same with eight times the value 1. -/
def onesFrame : List UInt8 :=
  [0, 0, 0, 0, 0, 0, 0, 0, 0, 0, 0, 0, 8, 0, 69, 0, 0, 72, 0, 0, 0, 0, 64, 6, 102, 174, 10, 0, 0,
    2, 10, 0, 0, 1, 4, 0, 0, 23, 0, 0, 0, 1, 0, 0, 0, 1, 80, 16, 2, 0, 167, 174, 0, 0, 123, 34,
    115, 101, 116, 118, 97, 108, 117, 101, 115, 34, 58, 91, 49, 44, 49, 44, 49, 44, 49, 44, 49,
    44, 49, 44, 49, 44, 49, 93, 125, 10]

/-- A SYN, a segment, and a frame of type IP that is too short for a header. -/
def threePackets (segment : List UInt8) (h : segment.length ≤ bufsize) : List Packet :=
  [.ofBytes synFrame (by decide), .ofBytes segment h,
    .ofBytes (List.replicate 12 0 ++ [8, 0, 0]) (by decide)]

/-- Eight times the same digit. -/
def eightTimes (d : Fin 10) (_ : Fin 8) : Numeral := ⟨0, .none, [d], by simp⟩

theorem outputs_hold_ones :
    Shows (fun i => (eightTimes 1 i).value) (run (loop hilsim)
      (.init 0 (List.replicate 6 0) rfl (fun _ => 0) shellState)
      (threePackets onesFrame (by decide))).net.app.server.shell := by
  have h := outputs_hold_iff 0 (List.replicate 6 0) rfl (fun _ => 0) shellState
    (threePackets onesFrame (by decide)) (by decide +kernel)
    [.led (.on 5), .led (.on 5)] [.led (.on 5)] []
    (strncpy (ascii "\x7b\"setvalues\":[1,1,1,1,1,1,1,1]\x7d") 80) (eightTimes 1)
    (by decide +kernel)
    ⟨⟨[123], [58], [125], by decide, by decide, by decide +kernel⟩, by decide⟩ (by simp)
  rw [h.1]
  exact h.2.mpr (by decide) [.led (.on 5)] (List.prefix_refl _)

/-- The next packet of type IP sets bit 7 of `PORTD`. -/
theorem not_outputs_hold :
    let b := Board.init (K := conf) 0 (List.replicate 6 0) rfl (fun _ => 0) shellState
    let buf := strncpy (ascii "\x7b\"setvalues\":[0,0,0,0,0,0,0,0]\x7d") 80
    let packets := threePackets zerosFrame (by decide)
    b.portEvents hilsim packets = [.led (.on 5), .led (.on 5), .command buf, .led (.on 5)] ∧
      Sets (cstr buf) (eightTimes 0) ∧
      ¬Shows (fun i => (eightTimes 0 i).value)
        (run (loop hilsim) b packets).net.app.server.shell := by
  intro b buf packets
  refine ⟨by decide +kernel, ?_, fun h => ?_⟩
  · exact ⟨⟨[123], [58], [125], by decide, by decide, by decide +kernel⟩, by decide⟩
  · have hbit := (h 7).2
    revert hbit
    decide +kernel

end Jsoncmd

end OpenPLC
