import OpenPLC.Apps.Exchange
import OpenPLC.Uip.Demux
import OpenPLC.Uip.Layout

/-! The code stays in its memory.  The line server answers with no more than a segment, and the
client with no more than a message, so both write inside `uip_buf` when `uip_appdata` is near its
start.  Only a packet can get the code lost: a fragment behind the arrays of `uip_reass`, the
options of a SYN that `uip_process` reads for ever, or an urgent pointer that leads the line server
out of `uip_buf`. -/

namespace OpenPLC

open Lib

namespace Server

variable {K : Conf} {σ : Type*}

/-- The lines that `senddata` takes fit the segment. -/
theorem length_fill (s : Server K σ) (mss : Nat) (ls : List (Option (Fin K.numlines)))
    (buflen : Nat) : (s.fill mss ls buflen).2.length ≤ mss - buflen := by
  induction ls generalizing buflen with
  | nil => exact Nat.zero_le _
  | cons l ls ih =>
    cases l with
    | none => exact Nat.zero_le _
    | some line =>
      simp only [fill]
      generalize (if s.linemem.strlen line > K.linelen then K.linelen
        else s.linemem.strlen line) = linelen
      split
      · have htake := List.length_take_le linelen (s.linemem.tail line)
        have hrest := ih (buflen + linelen)
        rw [List.length_append]
        omega
      · exact Nat.zero_le _

/-- The server sends no more than a segment. -/
theorem length_appcall_send (sh : Shell σ) (call : Call) (s : Server K σ) {bs : List UInt8}
    (h : (s.appcall sh call).2.send = some bs) : bs.length ≤ call.mss := by
  unfold appcall at h
  generalize (if call.connected then s.connected sh else s) = s₁ at h
  dsimp only at h
  split at h
  · cases h
  · unfold handle at h
    dsimp only at h
    split at h
    · obtain rfl := Option.some.inj h
      exact length_fill ..
    · cases h

end Server

namespace Stack

variable {K : Conf} {σ : Type*} {sh : Shell σ} {w w₁ : Stack (Firmware K σ)} {c : ConnId}

/-! ### The lengths of the connections -/

/-- The lengths of all connections are within the size of a segment. -/
def Small {α : Type*} (w : Stack α) : Prop := ∀ c, (w.conns c).Small

theorem Small.of_conns {α : Type*} {w w₁ : Stack α} (h : w.Small) (hconns : w₁.conns = w.conns) :
    w₁.Small := by
  unfold Small
  rw [hconns]
  exact h

theorem Amends.small {α : Type*} {w w₁ : Stack α} {c : ConnId} (h : Amends c w w₁)
    (hw : w.Small) : w₁.Small := fun d => (Changes.apply h d).small (hw d)

/-- The lengths are within their bounds when `uip_process` ends or calls an application. -/
def Outcome.Small {α : Type*} : Outcome α → Prop
  | .done w | .udpCall _ w | .call _ w _ => w.Small

theorem Outcome.Changes.small {α : Type*} {w : Stack α} {c : ConnId} {o : Outcome α}
    (h : o.Changes Conn.Amends c w) (hw : w.Small) : o.Small := by
  cases o with
  | done w₁ => exact Amends.small h hw
  | call d w₁ after => exact Amends.small h.2 hw
  | udpCall u w₁ => exact Amends.small h hw

theorem Outcome.Changes.amends {α : Type*} {w : Stack α} {c : ConnId} {o : Outcome α}
    (h : o.Changes Conn.Keeps c w) : o.Changes Conn.Amends c w := by
  cases o with
  | done w₁ => exact Keeps.amends h
  | call d w₁ after => exact ⟨h.1, Keeps.amends h.2⟩
  | udpCall u w₁ => exact Keeps.amends h

theorem process_small {α : Type*} {w : Stack α} (h : w.Small) (flag : ProcessFlag) :
    (w.process flag).Small := by
  rcases process_cases w flag with ⟨-, hprocess⟩ | ⟨-, hprocess⟩
  · rw [hprocess]
    exact Small.of_conns h (goto_conns w.enter .drop)
  rw [hprocess]
  by_cases hflag : flag = .data
  · subst hflag
    have hw : w.enter.Small := h
    change w.enter.dataInput.Small
    generalize w.enter = w₁ at hw
    cases hsegment : w₁.segment? with
    | none => exact (dataInput_keeps (c := 0) hsegment).amends.small hw
    | some w₂ =>
      obtain ⟨hsame, -, hinput, hsum⟩ := segment?_sameConns hsegment
      have hw₂ : w₂.Small := hw.of_conns hsame.conns
      rw [hinput]
      rcases tcpInput_cases hsum with ⟨c, -, h⟩ | ⟨c, haccepts, h⟩ | ⟨-, h⟩
      · rw [h]
        exact (found_amends c w₂).small hw₂
      · rw [h]
        intro d
        by_cases hd : d = c
        · rw [hd]
          exact haccepts.opened.small (hw₂ c)
        · rw [haccepts.opened.others d hd]
          exact hw₂ d
      · exact (h 0).amends.small hw₂
  · obtain ⟨c, hc⟩ : ∃ c, ∀ d, flag.conn? = some d → d = c := exists_eventConn (.process flag)
    exact (dispatch_keeps hflag hc w).amends.small h

theorem uipProcess_small (h : w.Small) (flag : ProcessFlag) :
    (w.uipProcess (firmwareApps sh) flag).Small := by
  have ho := process_small h flag
  unfold uipProcess
  cases hprocess : w.process flag with
  | done w₁ =>
    rw [hprocess] at ho
    exact ho
  | call c w₁ after =>
    rw [hprocess] at ho
    have hcall : (serverAppcall sh w₁).Small := Small.of_conns ho (serverAppcall_conns sh w₁)
    exact Amends.small (Keeps.amends (After.run_keeps c _ after)) hcall
  | udpCall u w₁ =>
    rw [hprocess] at ho
    have hclient := (dhcpcAppcall_sameServer w₁).trans (udpSend_sameServer u w₁.dhcpcAppcall)
    exact Small.of_conns ho hclient.conns

/-! ### Writes inside `uip_buf` -/

theorem reset_lost {α : Type*} (w : Stack α) : (reset w).lost = w.lost := by
  unfold reset
  split <;> exact goto_lost ..

theorem appsendLen_lost {α : Type*} (c : ConnId) (w : Stack α) :
    (appsendLen c w).lost = w.lost := by
  simp only [appsendLen]
  split
  · split <;> split <;> (try split) <;> rfl
  · rfl

theorem After.run_lost {α : Type*} (c : ConnId) (w : Stack α) (after : After) :
    (after.run c w).lost = w.lost := by
  have hrexmit (again : Bool) (w : Stack α) : (Stack.apprexmit c again w).lost = w.lost := by
    unfold Stack.apprexmit
    dsimp only
    split
    · exact goto_lost ..
    split <;> exact goto_lost ..
  cases after with
  | appsend =>
    simp only [After.run, Stack.appsend]
    split
    · exact goto_lost ..
    split
    · exact goto_lost ..
    exact (hrexmit _ _).trans (appsendLen_lost c w)
  | apprexmit => exact hrexmit true w
  | lastAck => exact goto_lost ..
  | refused => exact reset_lost _
  | timedout => exact goto_lost ..
  | goto l => exact goto_lost ..

theorem udpSend_lost {α : Type*} (u : UdpId) (w : Stack α) : (udpSend u w).lost = w.lost := by
  unfold udpSend
  split <;> exact goto_lost ..

/-- The line server writes inside when a segment fits at `uip_appdata`. -/
theorem serverAppcall_lost (hreads : ¬w.ReadsOutside sh)
    (hfits : w.appdata + w.uipMss.toNat ≤ bufBytes) : (serverAppcall sh w).lost = w.lost := by
  have hstart : (w.loseIf (w.ReadsOutside sh)).lost = w.lost := by
    change (w.lost || decide (w.ReadsOutside sh)) = w.lost
    rw [decide_eq_false hreads, Bool.or_false]
  have hsent (bs : List UInt8)
      (hsend : (w.app.server.appcall sh w.call).2.send = some bs) :
      w.appdata + bs.length ≤ bufBytes :=
    (Nat.add_le_add_left (Server.length_appcall_send sh w.call _ hsend) _).trans hfits
  unfold serverAppcall
  generalize w.app.server.appcall sh w.call = answer at hsent
  obtain ⟨server, close, send⟩ := answer
  cases send with
  | none => cases close <;> exact hstart
  | some bs =>
    let w₁ := ({ w.loseIf (w.ReadsOutside sh) with app.server := server }.put w.appdata bs)
    have hlost : (w₁.uipSend bs.length).lost = w.lost :=
      (uipSend_inside (w := w₁) (hsent bs rfl)).trans hstart
    cases close <;> exact hlost

/-- The client writes inside when a message fits at `uip_appdata`. -/
theorem dhcpcAppcall_lost (ht : Dhcpc.Threaded w.app.dhcpc) (hroom : Dhcpc.HasRoom w.appdata) :
    w.dhcpcAppcall.lost = w.lost := by
  unfold dhcpcAppcall
  split
  · obtain ⟨es, hes⟩ := handleDhcp_handled ht
    exact hes.lost hroom
  · rfl

/-- The stack or the line server gets lost: it leaves its memory, or loops for ever. -/
def Outcome.Strays (sh : Shell σ) : Outcome (Firmware K σ) → Prop
  | .done w | .udpCall _ w => w.lost = true
  | .call _ w _ => (serverAppcall sh w).lost = true

instance (sh : Shell σ) : ∀ o : Outcome (Firmware K σ), Decidable (o.Strays sh)
  | .done w | .udpCall _ w => inferInstanceAs (Decidable (w.lost = true))
  | .call _ w _ => inferInstanceAs (Decidable ((serverAppcall sh w).lost = true))

/-- The client does not get the code lost. -/
theorem Outcome.run_lost {o : Outcome (Firmware K σ)} (h : ¬o.Strays sh)
    (hudp : ∀ u w₁, o = .udpCall u w₁ →
      Dhcpc.Threaded w₁.app.dhcpc ∧ Dhcpc.HasRoom w₁.appdata) :
    (o.run (firmwareApps sh)).lost = false := by
  cases o with
  | done w₁ => exact Bool.eq_false_iff.mpr h
  | call c w₁ after => exact (After.run_lost c _ after).trans (Bool.eq_false_iff.mpr h)
  | udpCall u w₁ =>
    obtain ⟨ht, hroom⟩ := hudp u w₁ rfl
    exact (udpSend_lost u _).trans ((dhcpcAppcall_lost ht hroom).trans (Bool.eq_false_iff.mpr h))

/-- Without a packet nothing gets lost. -/
theorem process_not_strays (hp : w.Passive) (hsmall : w.Small) (hlost : w.lost = false)
    {flag : ProcessFlag} (hflag : flag ≠ .data) (hlaid : (w.process flag).Laid) :
    ¬(w.process flag).Strays sh := by
  have hquiet := process_quiet hflag w
  have hmoves := process_moves hp flag
  have hsizes := process_small hsmall flag
  cases ho : w.process flag with
  | done w₁ =>
    rw [ho] at hquiet
    exact Bool.eq_false_iff.mp (hquiet.trans hlost)
  | udpCall u w₁ =>
    rw [ho] at hquiet
    exact Bool.eq_false_iff.mp (hquiet.trans hlost)
  | call c w₁ after =>
    rw [ho] at hquiet hmoves hsizes hlaid
    have hreads : ¬w₁.ReadsOutside sh := fun h => by
      have hnewdata : w₁.flags.newdata = true := h.1.1
      rw [hquiet.2] at hnewdata
      cases hnewdata
    have hmss : w₁.uipMss.toNat ≤ 970 := by
      have hle : (w₁.conns c).mss ≤ 970 := (hsizes c).mss
      rw [UInt16.le_iff_toNat_le] at hle
      unfold uipMss
      rw [hmoves.2.1]
      exact hle
    have hfits : w₁.appdata + w₁.uipMss.toNat ≤ bufBytes := by
      rw [hlaid.1.appdata]
      exact (Nat.add_le_add_left hmss 54).trans (by decide)
    exact Bool.eq_false_iff.mp ((serverAppcall_lost hreads hfits).trans (hquiet.1.trans hlost))

end Stack

end OpenPLC
