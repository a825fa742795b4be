import OpenPLC.Uip.Process

/-! Where `uip_appdata` points when `uip_process` returns.  Every entry sets it to the place after
the TCP header, offset 54; the urgent pointer moves it, and the way to send data moves it back.
`network_send` takes the bytes after the first 54 from there, and a renewal of the DHCP lease builds
its message there. -/

namespace OpenPLC

open Lib

/-- The labels that end with no data. -/
def Label.Short : Label → Prop
  | .tcpSendAck _ | .tcpSendNodata _ | .drop => True
  | _ => False

theorem Label.Short.len_le {l : Label} (h : Label.Short l) (n : UInt16) : l.length n ≤ 40 := by
  cases l with
  | tcpSendAck | tcpSendNodata => exact le_refl 40
  | drop => exact show (0 : UInt16) ≤ 40 by decide
  | _ => exact h.elim

namespace Stack

variable {α : Type*} {w : Stack α} {c : ConnId}

/-- Both pointers to the data are as `uip_process` sets them first. -/
structure Entered (w : Stack α) : Prop where
  appdata : w.appdata = 54
  sappdata : w.sappdata = 54

/-- The data of the packet is at offset 54, or the packet has none. -/
def Framed (w : Stack α) : Prop := w.appdata = 54 ∨ w.len ≤ 40

/-- A jump after a call is to a label that ends with no data. -/
def After.Short : After → Prop
  | .goto l => l.Short
  | _ => True

/-- `uip_process` up to its call of an application leaves `uip_appdata` where it was. -/
def Outcome.Laid : Outcome α → Prop
  | .done w => w.appdata = 54
  | .call _ w after => w.Entered ∧ after.Short
  | .udpCall _ w => w.appdata = 42

/-! ### Up to the call -/

theorem Entered.goto (h : w.Entered) (l : Label) : (Outcome.done (w.goto l)).Laid :=
  (w.goto_appdata l).trans h.appdata

theorem reset_laid (h : w.Entered) : (Outcome.done (reset w)).Laid := by
  simp only [reset]
  split
  · exact h.goto _
  · refine (goto_appdata ..).trans ?_
    exact h.appdata

theorem synRcvd_laid (h : w.Entered) : (synRcvd c w).Laid := by
  simp only [synRcvd]
  split
  · split <;> exact ⟨⟨h.appdata, h.sappdata⟩, trivial⟩
  · exact h.goto _

theorem parseMss_entered (h : w.Entered) : (parseMss c w).Entered := by
  simp only [parseMss]
  split
  · split <;> exact ⟨h.appdata, h.sappdata⟩
  · exact h

theorem synSent_laid (h : w.Entered) : (synSent c w).Laid := by
  simp only [synSent]
  split
  · have h := parseMss_entered (c := c) h
    split
    · exact h.goto _
    · exact ⟨⟨h.appdata, h.sappdata⟩, trivial⟩
  · exact ⟨⟨h.appdata, h.sappdata⟩, trivial⟩

theorem establishedFin_laid (h : w.Entered) : (establishedFin c w).Laid := by
  simp only [establishedFin]
  split
  · exact h.goto _
  · exact ⟨⟨h.appdata, h.sappdata⟩, trivial⟩

theorem lastAck_laid (h : w.Entered) : (lastAck c w).Laid := by
  simp only [lastAck]
  split
  · exact ⟨⟨h.appdata, h.sappdata⟩, trivial⟩
  · exact h.goto _

theorem skipData_entered (h : w.Entered) : (skipData c w).Entered := by
  simp only [skipData]
  split <;> exact ⟨h.appdata, h.sappdata⟩

theorem finWait1_laid (h : w.Entered) : (finWait1 c w).Laid := by
  have h := skipData_entered (c := c) h
  simp only [finWait1]
  split
  · split <;> exact ⟨⟨h.appdata, h.sappdata⟩, trivial⟩
  · split
    · exact (goto_appdata ..).trans h.appdata
    · split <;> exact h.goto _

theorem finWait2_laid (h : w.Entered) : (finWait2 c w).Laid := by
  have h := skipData_entered (c := c) h
  simp only [finWait2]
  split
  · exact ⟨⟨h.appdata, h.sappdata⟩, trivial⟩
  · split <;> exact h.goto _

theorem closing_laid (h : w.Entered) : (Outcome.done (closing c w)).Laid := by
  simp only [closing]
  split
  · exact (goto_appdata ..).trans h.appdata
  · exact h.goto _

/-- The segment has urgent data for connection `c`, and `uip_process` moves `uip_appdata` over
it. -/
def Urgent (w : Stack α) (c : ConnId) : Prop :=
  w.HasFlag 0x20 ∧ (w.conns c).tcpstateflags.ts = .established ∧
    ¬(w.HasFlag 0x01 ∧ (w.conns c).tcpstateflags.stopped = false)

instance (w : Stack α) (c : ConnId) : Decidable (w.Urgent c) :=
  inferInstanceAs (Decidable (_ ∧ _ ∧ ¬(_ ∧ _)))

/-- The segment with urgent data that `uip_process` finds in a packet: its connection, and the stack
in case `UIP_ESTABLISHED`. -/
def urgentSegment (w : Stack α) : Option (ConnId × Stack α) :=
  match w.enter.ipInput with
  | (w, .tcp) =>
    if tcpchksum w.buf ≠ 0xffff then none
    else
      match w.findConn with
      | some c =>
        let w := { w with conn := some c, flags := {} }
        if w.HasFlag 0x04 then none
        else
          let w := { w with len := w.tcpDataLen }
          if w.OutOfOrder c then none
          else
            let w := ackInput c w
            if w.Urgent c then some (c, w) else none
      | none => none
  | _ => none

theorem established_laid (h : w.Entered) (hts : (w.conns c).tcpstateflags.ts = .established)
    (hurg : ¬w.Urgent c) : (established c w).Laid := by
  simp only [established]
  split
  · exact establishedFin_laid h
  next hfin =>
  · have hskip : skipUrgent w = w := by
      simp only [skipUrgent, ite_eq_right_iff]
      exact fun hflag => absurd ⟨hflag, hts, hfin⟩ hurg
    have hdata : (establishedData c w).Entered := by
      simp only [establishedData, updateMss, acceptData, hskip]
      split <;> exact ⟨h.appdata, h.sappdata⟩
    split
    · exact ⟨⟨hdata.appdata, hdata.sappdata⟩, trivial⟩
    · exact hdata.goto _

theorem tcpState_laid (h : w.Entered) (hurg : ¬w.Urgent c) : (tcpState c w).Laid := by
  simp only [tcpState]
  split
  · exact synRcvd_laid h
  · exact synSent_laid h
  · next hts => exact established_laid h hts hurg
  · exact lastAck_laid h
  · exact finWait1_laid h
  · exact finWait2_laid h
  · exact h.goto _
  · exact closing_laid h
  · exact h.goto _

theorem ackInput_entered (h : w.Entered) : (ackInput c w).Entered := by
  simp only [ackInput]
  split
  · exact ⟨h.appdata, h.sappdata⟩
  · exact h

theorem foundListen_laid (h : w.Entered) : (Outcome.done (foundListen w)).Laid := by
  simp only [foundListen]
  split
  · exact h.goto _
  · next c _ =>
    set w₁ := { w with conn := some c }.modConn c (openConn w.buf w.iss)
    have h₁ : (parseMss c w₁).Entered := parseMss_entered ⟨h.appdata, h.sappdata⟩
    split
    · exact h₁.goto _
    · exact (goto_appdata ..).trans h₁.appdata

theorem ipInput_entered (h : w.Entered) : w.ipInput.1.Entered := by
  have hlen : ∀ w' ∈ w.ipLength, w'.Entered := by
    intro w' hw'
    rw [ipLength_eq hw']
    exact ⟨h.appdata, h.sappdata⟩
  simp only [ipInput]
  split
  · exact h
  · next w' hw' =>
    have h' : w'.ipFragment.Entered := by
      obtain ⟨len, buf, reass, lost, hfragment⟩ := w'.ipFragment_eq
      rw [hfragment]
      exact ⟨(hlen w' hw').appdata, (hlen w' hw').sappdata⟩
    split
    · exact h'
    · exact h'

theorem icmpInput_laid (h : w.Entered) : (Outcome.done (icmpInput w)).Laid := by
  simp only [icmpInput]
  split
  · exact h.goto _
  · exact (goto_appdata ..).trans h.appdata

theorem udpInput_laid (h : w.Entered) : (udpInput w).Laid := by
  simp only [udpInput]
  split
  · rfl
  · exact (goto_appdata ..).trans h.appdata

/-- A packet leaves `uip_appdata` where it was, unless it has urgent data. -/
theorem dataInput_laid (w : Stack α) :
    (dataInput w.enter).Laid ∨ ∃ c w₁, w.urgentSegment = some (c, w₁) ∧ w₁.Entered ∧
      w₁.Urgent c ∧ dataInput w.enter = established c w₁ := by
  have h : w.enter.ipInput.1.Entered := ipInput_entered ⟨rfl, rfl⟩
  simp only [dataInput, urgentSegment]
  generalize w.enter.ipInput = p at h
  obtain ⟨w₀, verdict⟩ := p
  cases verdict with
  | tcp =>
    simp only [tcpInput]
    split
    · exact .inl (h.goto _)
    cases w₀.findConn with
    | some c =>
      simp only [found, foundSegment]
      split
      · exact .inl ⟨⟨h.appdata, h.sappdata⟩, trivial⟩
      split
      · exact .inl ((goto_appdata ..).trans h.appdata)
      · generalize hw₁ : ackInput c _ = w₁
        have h₁ : w₁.Entered := by
          rw [← hw₁]
          exact ackInput_entered ⟨h.appdata, h.sappdata⟩
        split
        · next hurg =>
          refine .inr ⟨c, _, rfl, h₁, hurg, ?_⟩
          simp only [tcpState, hurg.2.1]
        · next hurg => exact .inl (tcpState_laid h₁ hurg)
    | none =>
      refine .inl ?_
      simp only
      split
      · exact reset_laid h
      · split
        · exact foundListen_laid h
        · exact reset_laid h
  | udp => exact .inl (udpInput_laid h)
  | icmp => exact .inl (icmpInput_laid h)
  | drop => exact .inl (h.goto _)

theorem acceptData_appdata (c : ConnId) (w : Stack α) :
    (acceptData c w).appdata = w.appdata ∧ (acceptData c w).sappdata = w.sappdata ∧
      (acceptData c w).app = w.app := by
  simp only [acceptData]
  split <;> exact ⟨rfl, rfl, rfl⟩

theorem establishedData_appdata (c : ConnId) (w : Stack α) (hurg : w.HasFlag 0x20) :
    (establishedData c w).appdata = (w.appdata + w.urgp.toNat) % 65536 ∧
      (establishedData c w).sappdata = w.sappdata ∧ (establishedData c w).app = w.app := by
  have hskip : skipUrgent w =
      { w with appdata := (w.appdata + w.urgp.toNat) % 65536, len := w.len - w.urgp } :=
    if_pos hurg
  obtain ⟨happdata, hsappdata, happ⟩ := acceptData_appdata c (skipUrgent w)
  rw [hskip] at happdata hsappdata happ
  rw [establishedData, hskip]
  exact ⟨happdata, hsappdata, happ⟩

/-- With urgent data, the call of the application or the end without one comes after the move. -/
theorem established_urgent (hurg : w.Urgent c) :
    established c w =
      if (establishedData c w).flags.newdata ∨ (establishedData c w).flags.ackdata then
        .call c { establishedData c w with slen := 0 } .appsend
      else .done ((establishedData c w).goto .drop) := by
  simp only [established, hurg.2.2, ↓reduceIte]

theorem rexmit_laid (h : w.Entered) : (rexmit c w).Laid := by
  simp only [rexmit]
  split
  · exact (goto_appdata ..).trans h.appdata
  · exact (goto_appdata ..).trans h.appdata
  · exact ⟨⟨h.appdata, h.sappdata⟩, trivial⟩
  all_goals exact (goto_appdata ..).trans h.appdata

theorem connTimer_laid (h : w.Entered) : (connTimer c w).Laid := by
  simp only [connTimer]
  split
  · split <;> exact (goto_appdata ..).trans h.appdata
  split
  · exact h.goto _
  split
  · split
    · exact (goto_appdata ..).trans h.appdata
    split
    · exact ⟨⟨h.appdata, h.sappdata⟩, trivial⟩
    · exact rexmit_laid ⟨h.appdata, h.sappdata⟩
  · split
    · exact ⟨⟨h.appdata, h.sappdata⟩, trivial⟩
    · exact h.goto _

theorem timer_laid (w : Stack α) (c : ConnId) : (w.process (.timer c)).Laid := by
  rcases w.process_cases (.timer c) with ⟨-, hprocess⟩ | ⟨-, hprocess⟩
  · rw [hprocess]
    exact goto_appdata ..
  · rw [hprocess]
    exact connTimer_laid ⟨rfl, rfl⟩

theorem udpTimer_laid (w : Stack α) (u : UdpId) : (w.process (.udpTimer u)).Laid := by
  rcases w.process_cases (.udpTimer u) with ⟨-, hprocess⟩ | ⟨-, hprocess⟩
  · rw [hprocess]
    exact goto_appdata ..
  · rw [hprocess]
    simp only [dispatch]
    split
    · rfl
    · exact goto_appdata ..

/-- Only a segment with urgent data moves `uip_appdata`, and `udp_send` takes it as it is. -/
theorem process_laid (w : Stack α) (flag : ProcessFlag) :
    (w.process flag).Laid ∨ (∃ u, w.process flag = .done (udpSend u w)) ∨
      ∃ c w₁, w₁.Entered ∧ w₁.Urgent c ∧ w.process flag = established c w₁ := by
  rcases w.process_cases flag with ⟨-, hprocess⟩ | ⟨-, hprocess⟩
  · rw [hprocess]
    exact .inl (goto_appdata ..)
  cases flag with
  | data =>
    rw [hprocess]
    rcases w.dataInput_laid with h | ⟨c, w₁, -, h⟩
    · exact .inl h
    · exact .inr (.inr ⟨c, w₁, h⟩)
  | timer c => exact .inl (w.timer_laid c)
  | pollRequest c =>
    rw [hprocess]
    refine .inl ?_
    simp only [dispatch]
    split
    · exact ⟨⟨rfl, rfl⟩, trivial⟩
    · exact goto_appdata ..
  | udpSendConn u => exact .inr (.inl ⟨u, hprocess⟩)
  | udpTimer u => exact .inl (w.udpTimer_laid u)

/-- A call that is not for data or its acknowledgment finds `uip_appdata` where it was set first. -/
theorem process_call_entered {flag : ProcessFlag} {w₀ : Stack α} {after : After}
    (h : w.process flag = .call c w₀ after) (hnew : w₀.flags.newdata = false)
    (hack : w₀.flags.ackdata = false) : w₀.Entered := by
  rcases w.process_laid flag with hlaid | ⟨u, hdone⟩ | ⟨d, w₁, -, hurg, hest⟩
  · rw [h] at hlaid
    exact hlaid.1
  · rw [h] at hdone
    cases hdone
  · rw [h, established_urgent hurg] at hest
    split at hest
    · next hflags =>
      obtain ⟨-, rfl, -⟩ := Outcome.call.inj hest
      dsimp only at hnew hack
      rw [hnew, hack] at hflags
      simp at hflags
    · cases hest

/-! ### After the call -/

theorem apprexmit_appdata (h : w.sappdata = 54) (c : ConnId) (again : Bool) :
    (apprexmit c again w).appdata = 54 := by
  simp only [apprexmit]
  split
  · exact (goto_appdata ..).trans h
  split <;> exact (goto_appdata ..).trans h

theorem appsendLen_sappdata (c : ConnId) (w : Stack α) :
    (appsendLen c w).sappdata = w.sappdata := by
  simp only [appsendLen]
  split
  · split <;> split <;> (try split) <;> rfl
  · rfl

theorem appsend_appdata (h : w.sappdata = 54) (habort : w.flags.abort = false)
    (hclose : w.flags.close = false) (c : ConnId) : (appsend c w).appdata = 54 := by
  simp only [appsend, habort, hclose, Bool.false_eq_true, ↓reduceIte]
  refine apprexmit_appdata ?_ c _
  exact (appsendLen_sappdata c w).trans h

/-- After a call the data is at offset 54, or there is none. -/
theorem After.run_appdata (h : w.sappdata = 54) {after : After} (hshort : after.Short)
    (c : ConnId) :
    (after.run c w).appdata = 54 ∨
      (after.run c w).appdata = w.appdata ∧ (after.run c w).len ≤ 40 := by
  cases after with
  | appsend =>
    simp only [After.run, Stack.appsend]
    split
    · exact .inr ⟨goto_appdata .., (goto_len ..).trans_le (le_refl 40)⟩
    split
    · exact .inr ⟨goto_appdata .., (goto_len ..).trans_le (le_refl 40)⟩
    · refine .inl (apprexmit_appdata ?_ c _)
      exact (appsendLen_sappdata c w).trans h
  | apprexmit => exact .inl (apprexmit_appdata h c _)
  | lastAck => exact .inr ⟨goto_appdata .., (goto_len ..).trans_le (le_refl 40)⟩
  | refused =>
    simp only [After.run, Stack.reset]
    split
    · exact .inr ⟨goto_appdata .., (goto_len ..).trans_le (show (0 : UInt16) ≤ 40 by decide)⟩
    · exact .inr ⟨goto_appdata .., (goto_len ..).trans_le (le_refl 40)⟩
  | timedout => exact .inr ⟨goto_appdata .., (goto_len ..).trans_le (le_refl 40)⟩
  | goto l => exact .inr ⟨goto_appdata .., (goto_len ..).trans_le (hshort.len_le _)⟩

theorem goto_drop_framed (w : Stack α) : (w.goto .drop).Framed :=
  .inr ((goto_len ..).trans_le (show (0 : UInt16) ≤ 40 by decide))

theorem udpSend_framed (u : UdpId) (w : Stack α) : (udpSend u w).Framed := by
  simp only [udpSend]
  split
  · exact goto_drop_framed w
  · exact .inl (goto_appdata ..)

/-- What follows a call of an application is framed, when the application leaves `uip_sappdata`. -/
theorem After.run_framed {A : Apps α} (hA : ∀ w, (A.appcall w).sappdata = w.sappdata)
    (h : w.sappdata = 54) {after : After} (hshort : after.Short) (c : ConnId) :
    (after.run c (A.appcall w)).Framed :=
  (After.run_appdata ((hA w).trans h) hshort c).imp id And.right

theorem Outcome.Laid.run_framed {A : Apps α} (hA : ∀ w, (A.appcall w).sappdata = w.sappdata)
    {o : Outcome α} (h : o.Laid) : (o.run A).Framed := by
  cases o with
  | done w => exact .inl h
  | call c w after => exact After.run_framed hA h.1.sappdata h.2 c
  | udpCall u w => exact udpSend_framed u _

/-- Every packet that `uip_process` leaves is framed. -/
theorem uipProcess_framed {A : Apps α} (hA : ∀ w, (A.appcall w).sappdata = w.sappdata)
    (flag : ProcessFlag) (w : Stack α) : (w.uipProcess A flag).Framed := by
  unfold uipProcess
  rcases w.process_laid flag with h | ⟨u, hprocess⟩ | ⟨c, w₁, h, hurg, hprocess⟩
  · exact h.run_framed hA
  · rw [hprocess]
    exact udpSend_framed u w
  · have hsapp : (establishedData c w₁).sappdata = 54 :=
      (establishedData_appdata c w₁ hurg.1).2.1.trans h.sappdata
    rw [hprocess, established_urgent hurg]
    split
    · exact After.run_framed (w := { establishedData c w₁ with slen := 0 }) hA hsapp
        (show After.Short .appsend from trivial) c
    · exact goto_drop_framed _

end Stack

end OpenPLC
