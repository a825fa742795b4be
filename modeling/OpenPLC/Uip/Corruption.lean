import OpenPLC.Apps.Telnetd
import OpenPLC.Uip.Integrity

/-! A packet with a wrong word.  The checksums find every change of one word of a segment, but for
an exchange of 0 and all ones; the stack then leaves the connections and their server alone. -/

namespace OpenPLC

open Lib OnesComplement

/-- One of the words is in the place of the other in every sum. -/
def Alike (u v : UInt16) : Prop := u = v ∨ u = 0 ∧ v = 0xffff ∨ u = 0xffff ∧ v = 0

instance (u v : UInt16) : Decidable (Alike u v) := inferInstanceAs (Decidable (_ ∨ _ ∨ _))

theorem alike_iff {u v : UInt16} :
    wordSum (le16 u) ≡ wordSum (le16 v) [MOD 65535] ↔ Alike u v := by
  have hu := u.toNat_lt
  have hv := v.toNat_lt
  have h0 : (0 : UInt16).toNat = 0 := rfl
  have h1 : (0xffff : UInt16).toNat = 65535 := rfl
  unfold Alike
  rw [wordSum_le16, wordSum_le16, modEq_iff_of_lt (by omega) (by omega)]
  simp only [← UInt16.toNat_inj, h0, h1]
  omega

/-- A change of one word of the segment is seen. -/
theorem tcpchksum_write_iff {b : Mem} (h : tcpchksum b = 0xffff) {x : Nat} {v : UInt16}
    (hx : x % 2 = 0) (hge : 34 ≤ x) (hle : x + 2 ≤ 14 + (ipLen b).toNat) :
    tcpchksum (b.write x (le16 v)) = 0xffff ↔ Alike (b.get16 x) v := by
  have hlen : ipLen (b.write x (le16 v)) = ipLen b :=
    ipLen_congr (Mem.write_apply_of_lt (by omega)) (Mem.write_apply_of_lt (by omega))
  have hsum := wordSum_write b 34 ((ipLen b).toNat - 20) x (le16 v) rfl hge
    (show x + 2 ≤ 34 + ((ipLen b).toNat - 20) by omega) (by omega)
  rw [tcpchksum_eq_iff] at h
  rw [tcpchksum_eq_iff, ← alike_iff, le16_get16]
  refine checks_replace ?_ h
  unfold tcpSum
  have hupper := upperLayer_eq (b := b) (by omega)
  have hupper' := upperLayer_eq (b := b.write x (le16 v)) (by rw [hlen]; omega)
  rw [hupper, hupper', hlen, Mem.read_write_of_le (by omega)]
  omega

/-- A change of one word of the header is seen. -/
theorem ipchksum_write_iff {b : Mem} (h : ipchksum b = 0xffff) {x : Nat} {v : UInt16}
    (hx : x % 2 = 0) (hge : 14 ≤ x) (hlt : x < 34) :
    ipchksum (b.write x (le16 v)) = 0xffff ↔ Alike (b.get16 x) v := by
  have hsum := wordSum_write b 14 20 x (le16 v) rfl hge (by omega) (by omega)
  rw [ipchksum_eq_iff] at h
  rw [ipchksum_eq_iff, ← alike_iff, le16_get16]
  exact checks_replace hsum h

namespace Stack

variable {K : Conf} {σ : Type*} {sh : Shell σ} {w w₁ : Stack (Firmware K σ)}

/-- Without a segment, the connections and their server are left alone. -/
theorem dataInput_sameServer (h : w.segment? = none) :
    SameServer w (w.dataInput.run (firmwareApps sh)) := by
  have hsame := (ipInput_sameConns w).1
  have hinput : SameServer w w.ipInput.1 :=
    ⟨hsame.conns, hsame.wire, congrArg Firmware.server hsame.app⟩
  have hdrop (w : Stack (Firmware K σ)) : SameServer w (w.goto .drop) := ⟨rfl, rfl, rfl⟩
  unfold segment? at h
  unfold dataInput
  generalize w.ipInput = p at h hinput
  obtain ⟨w₁, verdict⟩ := p
  cases verdict with
  | tcp =>
    have hsum : tcpchksum w₁.buf ≠ 0xffff := by simpa using h
    dsimp only
    unfold tcpInput
    rw [if_pos hsum]
    exact hinput.trans (hdrop w₁)
  | udp =>
    dsimp only
    unfold udpInput
    dsimp only
    split
    · next u _ =>
      refine hinput.trans (.trans ?_ ((dhcpcAppcall_sameServer _).trans (udpSend_sameServer u _)))
      exact ⟨rfl, rfl, rfl⟩
    · refine hinput.trans (.trans ?_ (hdrop _))
      exact ⟨rfl, rfl, rfl⟩
  | icmp =>
    refine hinput.trans ?_
    change SameServer w₁ (icmpInput w₁)
    unfold icmpInput
    split
    · exact hdrop w₁
    · exact ⟨rfl, rfl, rfl⟩
  | drop => exact hinput.trans (hdrop w₁)

/-- A segment that is no fragment of a packet. -/
theorem segment?_whole {α : Type*} {w w₁ : Stack α}
    (hwhole : w.buf 20 &&& 0x3f = 0 ∧ w.buf 21 = 0) (h : w.segment? = some w₁) :
    ipchksum w.buf = 0xffff ∧ tcpchksum w.buf = 0xffff := by
  unfold segment? at h
  split at h
  · next w₂ hinput =>
    split at h
    · cases h
    next hsum =>
    have hdrop (hlength : w.ipLength = none) : False := by
      unfold ipInput at hinput
      rw [hlength] at hinput
      cases (Prod.mk.inj hinput).2
    have hvhl : w.buf 14 = 0x45 := by
      by_contra hvhl
      exact hdrop (if_pos hvhl)
    have hle : ipLen w.buf ≤ w.len := by
      by_contra hle
      refine hdrop ?_
      unfold ipLength
      rw [if_neg (not_not.mpr hvhl), if_neg hle]
    rw [ipInput_whole hvhl hle hwhole] at hinput
    obtain ⟨rfl, hverdict⟩ := Prod.mk.inj hinput
    exact ⟨((ipVerdict_cases w).1 hverdict).2, not_not.mp hsum⟩
  · cases h

/-- A segment with one wrong word leaves the connections and the server alone, whatever the word was
before, unless 0 and all ones are exchanged or the packet has become a fragment. -/
theorem wrong_word_dropped (sh : Shell σ) (w : Stack (Firmware K σ)) (buf : Mem) (len : UInt16)
    (hsegment : (w.eventSegment (.input buf len)).isSome)
    (hwhole : buf 20 &&& 0x3f = 0 ∧ buf 21 = 0) (x : Nat) (v : UInt16) (hx : x % 2 = 0)
    (hge : 14 ≤ x) (hle : x + 2 ≤ 14 + (ipLen buf).toNat) (hwrong : ¬Alike (buf.get16 x) v)
    (hwhole' : buf.write x (le16 v) 20 &&& 0x3f = 0 ∧ buf.write x (le16 v) 21 = 0) :
    SameServer w (w.netStep sh (.input (buf.write x (le16 v)) len)) := by
  obtain ⟨w₁, h⟩ := Option.isSome_iff_exists.mp hsegment
  have hlost : w.lost = false := lost_of_eventSegment h
  rw [eventSegment, arrival_input hlost] at h
  obtain ⟨hheader, hsum⟩ := segment?_whole
    (w := ({ w with buf, len } : Stack (Firmware K σ)).enter) hwhole h
  have hnone : ({ w with buf := buf.write x (le16 v), len } : Stack (Firmware K σ)).enter.segment? =
      none := by
    cases hsome :
        ({ w with buf := buf.write x (le16 v), len } : Stack (Firmware K σ)).enter.segment? with
    | none => rfl
    | some w₂ =>
      obtain ⟨hheader', hsum'⟩ := segment?_whole hwhole' hsome
      refine absurd ?_ hwrong
      by_cases hlt : x < 34
      · exact (ipchksum_write_iff hheader hx hge hlt).mp hheader'
      · exact (tcpchksum_write_iff hsum hx (by omega) hle).mp hsum'
  have henter : SameServer w
      ({ w with buf := buf.write x (le16 v), len } : Stack (Firmware K σ)).enter := ⟨rfl, rfl, rfl⟩
  have harrival : w.arrival (.input (buf.write x (le16 v)) len) = some _ := arrival_input hlost
  obtain ⟨-, -, -, houtcome⟩ := arrival_eq_some harrival
  unfold netStep
  rw [houtcome]
  exact henter.trans (dataInput_sameServer hnone)

/-- The window of a SYN is wrong. -/
theorem wrong_word_dropped_syn :
    SameServer (init 0 (.atStart ()) : Stack (Firmware Telnetd.conf Unit))
      ((init 0 (.atStart ()) : Stack (Firmware Telnetd.conf Unit)).netStep Telnetd.shell
        (.input ((Mem.ofList synFrame).write 48 (le16 1)) 58)) :=
  wrong_word_dropped Telnetd.shell (init 0 (.atStart ())) (Mem.ofList synFrame) 58
    (by decide +kernel) (by decide +kernel) 48 1 (by decide) (by decide) (by decide +kernel)
    (by decide +kernel) (by decide +kernel)

end Stack

end OpenPLC
