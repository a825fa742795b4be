import OpenPLC.Lib.Run
import OpenPLC.Main
import OpenPLC.Uip.Layout

/-! What the main loop transmits.  `network_send` hands over the first 54 bytes of `uip_buf` and the
rest from `uip_appdata`; the two parts are the frame that the stack built. -/

namespace OpenPLC

open Lib

namespace Stack

variable {K : Conf} {σ : Type*}

/-- The data of the frame is at offset 54, or the frame ends there. -/
def FrameReady {α : Type*} (w : Stack α) : Prop := w.appdata = 54 ∨ w.len ≤ 54

theorem serverAppcall_sappdata_eq (sh : Shell σ) (w : Stack (Firmware K σ)) :
    ((firmwareApps sh).appcall w).sappdata = w.sappdata := by
  simp only [firmwareApps, serverAppcall]
  split <;> split <;> rfl

theorem Framed.ethHeader {α : Type*} {w : Stack α} (h : w.Framed) (dest : List UInt8) :
    (w.ethHeader dest).FrameReady := by
  rcases h with h | h
  · exact .inl h
  · refine .inr ?_
    change w.len + 14 ≤ 54
    rw [UInt16.le_iff_toNat_le] at h ⊢
    have h40 : (40 : UInt16).toNat = 40 := rfl
    rw [UInt16.toNat_add]
    exact (Nat.mod_le _ _).trans (by simpa [h40] using Nat.add_le_add_right h 14)

/-- `uip_arp_out` adds the Ethernet header, or puts an ARP request in the place of the packet. -/
theorem Framed.arpOut {α : Type*} {w : Stack α} (h : w.Framed) (a : Arp) :
    (w.arpOut a).FrameReady := by
  simp only [Stack.arpOut]
  split
  · exact h.ethHeader _
  · split
    · exact h.ethHeader _
    · exact .inl rfl

theorem arpArpin_frameReady {α : Type*} (w : Stack α) (a : Arp) : (w.arpArpin a).1.FrameReady := by
  have hempty (w : Stack α) : FrameReady { w with len := 0 } :=
    .inr (show (0 : UInt16) ≤ 54 by decide)
  simp only [arpArpin]
  split
  · exact hempty w
  split
  · split
    · exact .inr (show (42 : UInt16) ≤ 54 by decide)
    · exact hempty w
  split
  · split <;> exact hempty w
  · exact hempty w

end Stack

/-- A frame that is handed over as the stack built it. -/
def Frame.whole (bs : List UInt8) : Frame := ⟨bs, bs⟩

namespace Board

variable {K : Conf} {σ : Type*} (P : Project K σ) {b b' : Board K σ}

/-! ### The frames that the stack builds -/

/-- The frame of a call of `uip_process`, with what `uip_arp_out` makes of it. -/
def processFrames (b : Board K σ) (flag : ProcessFlag) : List (List UInt8) :=
  let w := b.net.uipProcess (firmwareApps P.shell) flag
  if 0 < w.len ∧ w.lost = false then [(w.arpOut b.arp).frame] else []

/-- The frame in answer to a packet. -/
def inputFrames (b : Board K σ) : List (List UInt8) :=
  if b.net.buf.get16 12 = htons ethtypeIp then
    let b := b.ledOn P 5
    let (net, arp) := b.net.arpIpin b.arp
    { b with net, arp }.processFrames P .data
  else if b.net.buf.get16 12 = htons ethtypeArp then
    let b := b.ledOn P 4
    let w := (b.net.arpArpin b.arp).1
    if 0 < w.len then [w.frame] else []
  else []

/-- The calls of `uip_process` for the timers. -/
def timerFlags : List ProcessFlag :=
  (List.finRange 10).map .timer ++ (List.finRange 10).map .udpTimer

/-- The frames of the periodic work. -/
def periodicFrames (b : Board K σ) : List (List UInt8) :=
  let b := (b.ledOff P 4).ledOff P 5
  let b := { b with periodicTimer := b.periodicTimer.reset }
  (outputs (fun b flag => b.process P flag) (processFrames P) b timerFlags).flatten

/-- The frames of one turn of the loop. -/
def turnFrames (b : Board K σ) (packet : Packet) : List (List UInt8) :=
  if b.net.lost then []
  else
    let b := b.networkRead packet
    if 0 < b.net.len then b.inputFrames P
    else
      let (due, b) := b.expired b.periodicTimer
      if due then b.periodicFrames P else []

/-! ### What is sent -/

/-- From `b` to `b'` the driver is handed these frames. -/
def Hands (b b' : Board K σ) (fs : List (List UInt8)) : Prop :=
  b'.sent = run (fun sent bs => sent ++ [Frame.whole bs]) b.sent fs

theorem hands_nil (h : b'.sent = b.sent) : Hands b b' [] := h

theorem hands_iff {fs : List (List UInt8)} :
    Hands b b' fs ↔ b'.sent = b.sent ++ fs.map Frame.whole := by
  have hrun (sent : List Frame) :
      run (fun sent bs => sent ++ [Frame.whole bs]) sent fs = sent ++ fs.map Frame.whole := by
    induction fs generalizing sent with
    | nil => simp
    | cons bs fs ih => simp [ih]
  rw [Hands, hrun]

theorem networkSend_sent (h : b.net.FrameReady) :
    b.networkSend.sent = b.sent ++ [Frame.whole b.net.frame] := by
  refine congrArg (fun bs => b.sent ++ [Frame.mk bs _]) ?_
  split
  · rfl
  · next hlt =>
    have happ := h.resolve_right hlt
    rw [happ, Mem.read_append]
    congr 1
    rw [UInt16.le_iff_toNat_le] at hlt
    have h54 : (54 : UInt16).toNat = 54 := rfl
    rw [UInt16.toNat_sub_of_le _ _ (by rw [UInt16.le_iff_toNat_le]; omega)]
    omega

variable {P}

theorem process_hands (flag : ProcessFlag) (b : Board K σ) :
    Hands b (b.process P flag) (b.processFrames P flag) := by
  have hframed := Stack.uipProcess_framed (Stack.serverAppcall_sappdata_eq P.shell) flag b.net
  simp only [process, output, processFrames]
  generalize b.net.uipProcess (firmwareApps P.shell) flag = w at hframed
  split
  · exact networkSend_sent (b := { b with net := w.arpOut b.arp }) (hframed.arpOut b.arp)
  · exact hands_nil rfl

theorem input_hands (b : Board K σ) : Hands b (b.input P) (b.inputFrames P) := by
  simp only [input, inputFrames]
  split
  · generalize (b.ledOn P 5).net.arpIpin (b.ledOn P 5).arp = p
    exact process_hands .data { b.ledOn P 5 with net := p.1, arp := p.2 }
  split
  · have hready := (b.ledOn P 4).net.arpArpin_frameReady (b.ledOn P 4).arp
    generalize (b.ledOn P 4).net.arpArpin (b.ledOn P 4).arp = p at hready
    split
    · exact networkSend_sent (b := { b.ledOn P 4 with net := p.1, arp := p.2 }) hready
    · exact hands_nil rfl
  · exact hands_nil rfl

theorem poll_hands (b : Board K σ) : Hands b (b.poll P)
    (outputs (fun b flag => b.process P flag) (processFrames P) b timerFlags).flatten := by
  have hpoll : b.poll P = run (fun b flag => b.process P flag) b timerFlags := by
    simp [poll, timerFlags, run, List.foldl_append, List.foldl_map]
  rw [hpoll]
  have hall : Along (fun b flag => b.process P flag) (fun _ _ => True) b timerFlags :=
    along_of_forall (fun _ _ _ => trivial) b
  exact hall.run_flatten_outputs (f := Board.sent) fun b flag _ => process_hands flag b

theorem periodic_hands (b : Board K σ) : Hands b (b.periodic P) (b.periodicFrames P) := by
  set b₁ := { (b.ledOff P 4).ledOff P 5 with periodicTimer := b.periodicTimer.reset } with hb₁
  have hpoll : Hands b₁ (b₁.poll P) (b.periodicFrames P) := poll_hands b₁
  exact (b₁.poll P).arpTick_aside.sent.trans hpoll

/-- In every turn of the main loop, from whatever state, the driver is handed every frame that the
stack builds, and each is all of the frame. -/
theorem loop_sends_whole (P : Project K σ) (b : Board K σ) (packet : Packet) :
    (b.loop P packet).sent = b.sent ++ (b.turnFrames P packet).map Frame.whole := by
  rw [← hands_iff]
  unfold turnFrames
  split
  · next hlost =>
    rw [loop_of_lost P hlost]
    exact hands_nil rfl
  next hlost =>
  rcases loop_cases P (Bool.eq_false_of_not_eq_true hlost) packet with
    ⟨hlen, h⟩ | ⟨hlen, hdue, h⟩ | ⟨hlen, hdue, -, h⟩ | ⟨hlen, hdue, -, h⟩
  · simp only [h, hlen, ↓reduceIte]
    exact input_hands (b.networkRead packet)
  · simp only [h, hlen, hdue, ↓reduceIte]
    exact periodic_hands ((b.networkRead packet).expired (b.networkRead packet).periodicTimer).2
  · simp only [h, hlen, hdue, Bool.false_eq_true, ↓reduceIte]
    exact hands_nil rfl
  · simp only [h, hlen, hdue, Bool.false_eq_true, ↓reduceIte]
    exact hands_nil rfl

end Board

end OpenPLC
