import OpenPLC.Apps.Dhcpc
import OpenPLC.Uip.Transitions

/-! Runs of the stack with the applications of a project: packets, timers, and renewals in any
order. Each step is a transition of a connection, with a call of the line server or without. -/

namespace OpenPLC

open Lib

/-- An event for the stack: a packet in `uip_buf`, another call of `uip_process`, or a call of
`dhcpc_renew`. -/
inductive NetEvent
  | input (buf : Mem) (len : UInt16)
  | process (flag : ProcessFlag)
  | renew

/-- A packet with these bytes. -/
def NetEvent.frame (bs : List UInt8) : NetEvent := .input (.ofList bs) bs.length.toUInt16

/-- The timer of the first connection. -/
def NetEvent.firstTimer : NetEvent := .process (.timer ⟨0, by decide⟩)

/-- The applications at the start, with a hardware address of zeros and a clock that stands
still. -/
def Firmware.atStart {K : Conf} {σ : Type*} (shell : σ) : Firmware K σ :=
  .init (List.replicate 6 0) rfl (fun _ => 0) shell

/-- The frame of a SYN for port 23, with an MSS option, and a window of 512 bytes. -/
def synFrame : List UInt8 :=
  [0, 0, 0, 0, 0, 0, 0, 0, 0, 0, 0, 0, 8, 0, 69, 0, 0, 44, 0, 0, 0, 0, 64, 6, 102, 202, 10, 0, 0,
    2, 10, 0, 0, 1, 4, 0, 0, 23, 0, 0, 0, 0, 0, 0, 0, 0, 96, 2, 2, 0, 129, 193, 0, 0, 2, 4, 2, 0]

namespace Stack

variable {K : Conf} {σ : Type*} {w w₁ w₂ : Stack (Firmware K σ)}

/-- The call of `uip_process` for an event, up to its call of an application. -/
def outcome {α : Type*} (w : Stack α) : NetEvent → Option (Outcome α)
  | .input buf len => some ({ w with buf, len }.process .data)
  | .process flag => some (w.process flag)
  | .renew => none

/-- The step of an event. -/
def netStep (sh : Shell σ) (w : Stack (Firmware K σ)) (e : NetEvent) : Stack (Firmware K σ) :=
  match w.outcome e with
  | some o => o.run (firmwareApps sh)
  | none => w.dhcpcRenew

/-- The state in which an event calls the line server. -/
def serverCall {α : Type*} (w : Stack α) (e : NetEvent) : Option (Stack α) :=
  match w.outcome e with
  | some (.call _ w _) => some w
  | _ => none

/-- The event ends the last wait of connection `c`. -/
def EndsWait {α : Type*} (w : Stack α) : NetEvent → ConnId → Prop
  | .process flag, c => w.Due flag c
  | _, _ => False

instance {α : Type*} (w : Stack α) (flag : ProcessFlag) (c : ConnId) : Decidable (w.Due flag c) :=
  inferInstanceAs (Decidable (_ ∧ _))

instance {α : Type*} (w : Stack α) : ∀ e c, Decidable (w.EndsWait e c)
  | .process flag, c => inferInstanceAs (Decidable (w.Due flag c))
  | .input .., _ | .renew, _ => instDecidableFalse

/-! ### The client -/

/-- Nothing changes of the connections and of the line server. -/
structure SameServer (w w' : Stack (Firmware K σ)) : Prop where
  conns : w'.conns = w.conns
  wire : w'.wire = w.wire
  server : w'.app.server = w.app.server

namespace SameServer

theorem refl (w : Stack (Firmware K σ)) : SameServer w w := ⟨rfl, rfl, rfl⟩

theorem trans (h : SameServer w w₁) (h' : SameServer w₁ w₂) : SameServer w w₂ :=
  ⟨h'.conns.trans h.conns, h'.wire.trans h.wire, h'.server.trans h.server⟩

end SameServer

theorem offerLoop_sameServer (w : Stack (Firmware K σ)) : SameServer w w.offerLoop :=
  ⟨rfl, rfl, rfl⟩

theorem ackLoop_sameServer (w : Stack (Firmware K σ)) : SameServer w w.ackLoop := ⟨rfl, rfl, rfl⟩

theorem parseOffer_sameServer (w : Stack (Firmware K σ)) : SameServer w w.parseOffer := by
  simp only [parseOffer]
  split <;> exact ⟨rfl, rfl, rfl⟩

theorem parseAck_sameServer (w : Stack (Firmware K σ)) : SameServer w w.parseAck := by
  simp only [parseAck]
  split <;> exact ⟨rfl, rfl, rfl⟩

theorem modClient_sameServer (w : Stack (Firmware K σ)) (f : Dhcpc.Client → Dhcpc.Client) :
    SameServer w (w.modClient f) := ⟨rfl, rfl, rfl⟩

theorem afterOfferWait_sameServer (w : Stack (Firmware K σ)) : SameServer w w.afterOfferWait := by
  have next (w : Stack (Firmware K σ)) : SameServer w
      (if w.app.dhcpc.state ≠ .offerReceived then w.offerLoop
      else (w.modClient fun s => { s with ticks := clockSecond * 3 }).ackLoop) := by
    split
    · exact w.offerLoop_sameServer
    · exact (w.modClient_sameServer _).trans (ackLoop_sameServer _)
  simp only [afterOfferWait]
  split
  · exact w.parseOffer_sameServer.trans (next _)
  · exact (w.modClient_sameServer _).trans (next _)

theorem afterAckWait_sameServer (w : Stack (Firmware K σ)) : SameServer w w.afterAckWait := by
  simp only [afterAckWait]
  split
  · refine w.parseAck_sameServer.trans ?_
    generalize w.parseAck = w
    split
    · exact w.ackLoop_sameServer
    · exact ⟨rfl, rfl, rfl⟩
  · split
    · exact (w.modClient_sameServer _).trans (ackLoop_sameServer _)
    · exact w.modClient_sameServer _

theorem ready_sameServer (w : Stack (Firmware K σ)) : SameServer w w.ready.2 := by
  simp only [ready]
  split <;> exact ⟨rfl, rfl, rfl⟩

theorem handleDhcp_sameServer (w : Stack (Firmware K σ)) : SameServer w w.handleDhcp := by
  simp only [handleDhcp]
  split
  · exact ⟨rfl, rfl, rfl⟩
  · split
    · exact w.ready_sameServer.trans (afterOfferWait_sameServer _)
    · exact w.ready_sameServer
  · split
    · exact w.ready_sameServer.trans (afterAckWait_sameServer _)
    · exact w.ready_sameServer

theorem dhcpcAppcall_sameServer (w : Stack (Firmware K σ)) : SameServer w w.dhcpcAppcall := by
  simp only [dhcpcAppcall]
  split
  · exact w.handleDhcp_sameServer
  · exact .refl w

theorem dhcpcRenew_sameServer (w : Stack (Firmware K σ)) : SameServer w w.dhcpcRenew := by
  unfold dhcpcRenew
  split
  · exact .refl w
  · have hlog : SameServer w ({ w with hostaddr := .ofBytes 0 0 0 0 }.logClient .renewed) :=
      ⟨rfl, rfl, rfl⟩
    exact hlog.trans (handleDhcp_sameServer _)

theorem udpSend_sameServer (u : UdpId) (w : Stack (Firmware K σ)) : SameServer w (udpSend u w) := by
  simp only [udpSend]
  split
  · constructor <;> simp
  · constructor <;> simp [put, putLen]

/-! ### The call of the line server -/

section Appcall

variable (sh : Shell σ) (w : Stack (Firmware K σ))

@[simp] theorem serverAppcall_server :
    (serverAppcall sh w).app.server = (w.app.server.appcall sh w.call).1 := by
  simp only [serverAppcall]
  split <;> split <;> rfl

@[simp] theorem serverAppcall_conns : (serverAppcall sh w).conns = w.conns := by
  simp only [serverAppcall]
  split <;> split <;> rfl

@[simp] theorem serverAppcall_wire : (serverAppcall sh w).wire = w.wire := by
  simp only [serverAppcall]
  split <;> split <;> rfl

@[simp] theorem serverAppcall_sappdata : (serverAppcall sh w).sappdata = w.sappdata := by
  simp only [serverAppcall]
  split <;> split <;> rfl

theorem serverAppcall_flags :
    (serverAppcall sh w).flags =
      if (w.app.server.appcall sh w.call).2.close then { close := true } else w.flags := by
  simp only [serverAppcall]
  split <;> split <;> rfl

variable {sh w} in
theorem serverAppcall_sending {bs : List UInt8}
    (hreply : (w.app.server.appcall sh w.call).2 = { send := some bs }) (hsapp : w.sappdata = 54)
    (hahead : 54 ≤ w.appdata) (hlt : bs.length < 65536) :
    Sending bs (serverAppcall sh w) ∧ (serverAppcall sh w).flags = w.flags := by
  have hsend : serverAppcall sh w =
      ({ w.loseIf (w.ReadsOutside sh) with
        app.server := (w.app.server.appcall sh w.call).1 }.put w.appdata bs).uipSend bs.length := by
    simp [serverAppcall, hreply, put, loseIf]
  rw [hsend]
  refine ⟨⟨hsapp, ?_, ?_⟩, rfl⟩
  · change bs.length % 65536 = bs.length
    exact Nat.mod_eq_of_lt hlt
  · rw [← hsapp]
    refine (uipSend_read ?_ bs.length).trans (Mem.read_write_of_length _ _ rfl)
    change w.sappdata ≤ w.appdata
    rwa [hsapp]

end Appcall

/-! ### The steps -/

/-- Once the code is lost, no application is called. -/
theorem outcome_of_lost {α : Type*} {w w₁ : Stack α} (h : w.lost = true) {e : NetEvent}
    {c : ConnId} {after : After} : w.outcome e ≠ some (.call c w₁ after) := by
  have hprocess (w : Stack α) (h : w.lost = true) (flag : ProcessFlag) :
      w.process flag ≠ .call c w₁ after := by
    rw [process, if_pos h]
    simp
  intro houtcome
  cases e with
  | input buf len => exact hprocess { w with buf, len } h .data (Option.some.inj houtcome)
  | process flag => exact hprocess w h flag (Option.some.inj houtcome)
  | renew => cases houtcome

/-- Once the code is lost, a step changes nothing that a statement is about. -/
theorem netStep_of_lost (sh : Shell σ) (h : w.lost = true) (e : NetEvent) :
    SameConns w (w.netStep sh e) ∧ (w.netStep sh e).lost = true := by
  have hdone (w : Stack (Firmware K σ)) (h : w.lost = true) (flag : ProcessFlag) :
      (w.process flag).run (firmwareApps sh) = w.enter.goto .drop := by
    rcases process_cases w flag with ⟨-, hprocess⟩ | ⟨hlost, -⟩
    · rw [hprocess]
      rfl
    · rw [h] at hlost
      cases hlost
  have henter (w : Stack (Firmware K σ)) : SameConns w (w.enter.goto .drop) :=
    ⟨goto_app _ _, goto_conns _ _, goto_wire _ _⟩
  cases e with
  | input buf len =>
    have hstep := hdone { w with buf, len } h .data
    have hinput := henter { w with buf, len }
    simp only [netStep, outcome, hstep]
    exact ⟨⟨hinput.app, hinput.conns, hinput.wire⟩, by simp [enter, h]⟩
  | process flag =>
    simp only [netStep, outcome, hdone w h flag]
    exact ⟨henter w, by simp [enter, h]⟩
  | renew =>
    simp only [netStep, outcome, dhcpcRenew, h, ↓reduceIte]
    exact ⟨.refl w, trivial⟩

theorem lost_of_netStep {sh : Shell σ} {e : NetEvent} (h : (w.netStep sh e).lost = false) :
    w.lost = false := by
  cases hlost : w.lost with
  | false => rfl
  | true =>
    rw [(netStep_of_lost sh hlost e).2] at h
    cases h

theorem outcome_moves (hp : w.Passive) {e : NetEvent} {o : Outcome (Firmware K σ)}
    (ho : w.outcome e = some o) : o.Moves (w.EndsWait e) w := by
  cases e with
  | input buf len =>
    obtain rfl := Option.some.inj ho
    have hs : SameConns w { w with buf, len } := ⟨rfl, rfl, rfl⟩
    have hdue : w.EndsWait (.input buf len) = { w with buf, len }.Due .data := by
      funext c
      simp [EndsWait, Due]
    rw [hdue]
    exact .of_sameConns hs (process_moves (hs.passive hp) .data)
  | process flag =>
    obtain rfl := Option.some.inj ho
    exact process_moves hp flag
  | renew => cases ho

/-- A step is a transition without a call of the line server, or one with a call. -/
theorem netStep_cases (sh : Shell σ) (hp : w.Passive) (e : NetEvent) :
    (w.serverCall e = none ∧
        ∃ c w₁, Moves (w.EndsWait e) c none w w₁ ∧ SameServer w₁ (w.netStep sh e)) ∨
      ∃ c w₀ after, w.serverCall e = some w₀ ∧
        Moves (w.EndsWait e) c (some (w₀.flags, after)) w w₀ ∧ w₀.conn = some c ∧ w₀.sappdata = 54 ∧
        w.netStep sh e = after.run c (serverAppcall sh w₀) := by
  simp only [serverCall, netStep]
  cases ho : w.outcome e with
  | none => exact .inl ⟨rfl, 0, w, (SameConns.refl w).moves hp 0, dhcpcRenew_sameServer w⟩
  | some o =>
    have hm := outcome_moves hp ho
    cases o with
    | done w₁ =>
      obtain ⟨c, hc⟩ := hm
      exact .inl ⟨rfl, c, w₁, hc, .refl w₁⟩
    | call c w₀ after => exact .inr ⟨c, w₀, after, rfl, hm.1, hm.2.1, hm.2.2, rfl⟩
    | udpCall u w₁ =>
      exact .inl ⟨rfl, 0, w₁, hm.moves hp 0,
        (dhcpcAppcall_sameServer w₁).trans (udpSend_sameServer u _)⟩

/-- A step with a call: the server handles it, and the connection goes on as it asks. -/
theorem Moves.appcall {due : ConnId → Prop} {c : ConnId} {call : Option (Flags × After)}
    {w₀ : Stack (Firmware K σ)} (h : Moves due c call w w₀) (sh : Shell σ) (after : After) :
    (after.run c (serverAppcall sh w₀)).app.server = (w.app.server.appcall sh w₀.call).1 ∧
      (∀ d ≠ c, (after.run c (serverAppcall sh w₀)).conns d = w.conns d) ∧
      ((after.run c (serverAppcall sh w₀)).conns c).tcpstateflags =
        ⟨after.state (if (w.app.server.appcall sh w₀.call).2.close then { close := true }
          else w₀.flags) (w₀.ts c), false⟩ := by
  obtain ⟨happ, hothers, hstate⟩ :=
    After.run_conn c (serverAppcall sh w₀) after (by simpa using h.stopped)
  rw [happ, hstate, serverAppcall_server, serverAppcall_flags, h.app, ts, serverAppcall_conns]
  exact ⟨rfl, fun d hd => by rw [hothers d hd, serverAppcall_conns, h.others d hd], rfl⟩

theorem netStep_passive (sh : Shell σ) (hp : w.Passive) (e : NetEvent) :
    (w.netStep sh e).Passive := by
  intro d
  rcases netStep_cases sh hp e with ⟨-, c, w₁, hm, hs⟩ | ⟨c, w₀, after, -, hm, -, -, hw⟩
  · obtain ⟨a, htrans, -⟩ := hm.acked
    rw [ts, hs.conns]
    by_cases hd : d = c
    · subst hd
      exact ⟨hm.stopped, htrans.ne_synSent (hp d).2⟩
    · rw [hm.others d hd]
      exact hp d
  · obtain ⟨a, htrans, -⟩ := hm.acked
    obtain ⟨-, hothers, hstate⟩ := hm.appcall sh after
    rw [hw]
    by_cases hd : d = c
    · subst hd
      rw [ts, hstate]
      exact ⟨rfl, after.state_ne ⟨(by simp), (by simp), (by simp)⟩ (htrans.ne_synSent (hp d).2)⟩
    · rw [ts, hothers d hd]
      exact hp d

end Stack

end OpenPLC
