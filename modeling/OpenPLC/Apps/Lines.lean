import OpenPLC.Apps.Steps
import OpenPLC.Apps.Telnetd

/-! The lines that `shell_output` queues.  A line is ended by CR, LF, and NUL only where these fit
behind the two strings; a longer line is cut without them, and a line of `LINELEN` bytes has no NUL,
so that `strlen` reads on in the block behind it. -/

namespace OpenPLC

open Lib

namespace Server

variable {K : Conf} {σ : Type*} {s s' t : Server K σ} {str1 str2 : List UInt8}
  {line : Fin K.numlines}

/-- From `s`, where `line` is allocated, to `t`, where it is queued: the line is a string of its own
block with the end of a line, and `strlen` stops in the block, now and when the line is sent,
whatever the other blocks hold. -/
structure SelfContained (str1 str2 : List UInt8) (line : Fin K.numlines) (s t : Server K σ) :
    Prop where
  terminated : 0 ∈ (t.linemem.mem line).bytes
  ended : ∃ pre, pre <+: cstr str1 ++ cstr str2 ∧ t.text line = pre ++ [13, 10]
  measured : (s.storeOutput str1 str2 line).linemem.strlen line < K.linelen
  sent : ∀ m : Memb K.linelen K.numlines, m.mem line = t.linemem.mem line →
    m.strlen line < K.linelen ∧ (m.tail line).take (m.strlen line) = t.text line

theorem sendline_mem (s : Server K σ) (line : Fin K.numlines) :
    (s.sendline line).linemem.mem = s.linemem.mem := by
  simp only [sendline]
  split
  · rfl
  · exact Memb.free_mem ..

theorem shellOutput_text (h : s.allocLine = some (line, s')) (str1 str2 : List UInt8) :
    (ShellCall.output str1 str2).text K = some ((s.shellOutput str1 str2).text line) := by
  rw [(endOutput_text str1 str2 line s').2]
  simp only [shellOutput, h, text, sendline_mem]

/-- A block with a NUL is measured and sent by itself. -/
theorem sent_of_terminated (h : 0 ∈ (t.linemem.mem line).bytes)
    (m : Memb K.linelen K.numlines) (hm : m.mem line = t.linemem.mem line) :
    m.strlen line < K.linelen ∧ (m.tail line).take (m.strlen line) = t.text line := by
  have hlt : m.strlen line < K.linelen := Memb.strlen_lt_iff.mpr (hm ▸ h)
  have htake := m.take_strlen line
  rw [Nat.min_eq_left hlt.le] at htake
  exact ⟨hlt, htake.trans (by rw [hm]; rfl)⟩

theorem strlen_storeOutput_lt (h : (cstr str1 ++ cstr str2).length < K.linelen)
    (line : Fin K.numlines) (s : Server K σ) :
    (s.storeOutput str1 str2 line).linemem.strlen line < K.linelen := by
  have htext := s.storeOutput_text str1 str2 line
  rw [List.take_of_length_le h.le] at htext
  rw [Memb.strlen_lt_iff, ← Block.length_text_lt_iff]
  exact (congrArg List.length htext).trans_lt h

/-- For every two strings and every state with a free block, the line is self-contained if and only
if both strings, CR, LF, and NUL fit in a block, or the strings fit with a NUL and themselves end
with CR and LF. -/
theorem shellOutput_selfContained_iff (s s' : Server K σ) (str1 str2 : List UInt8)
    (line : Fin K.numlines) (h : s.allocLine = some (line, s')) :
    SelfContained str1 str2 line s' (s.shellOutput str1 str2) ↔
      (cstr str1).length + (cstr str2).length + 2 < K.linelen ∨
        (cstr str1).length + (cstr str2).length < K.linelen ∧
          [13, 10] <:+ cstr str1 ++ cstr str2 := by
  have htext := shellOutput_text h str1 str2
  rw [← List.length_append]
  simp only [ShellCall.text] at htext
  generalize s.shellOutput str1 str2 = t at htext
  have hfour := K.four_le_linelen
  by_cases hshort : (cstr str1 ++ cstr str2).length + 2 < K.linelen
  · rw [List.take_of_length_le (by omega), if_pos (by omega)] at htext
    have hended : t.text line = cstr str1 ++ cstr str2 ++ [13, 10] := (Option.some.inj htext).symm
    have hterminated : 0 ∈ (t.linemem.mem line).bytes := by
      rw [← Block.length_text_lt_iff]
      refine (congrArg List.length hended).trans_lt ?_
      rw [List.length_append]
      exact hshort
    exact iff_of_true
      ⟨hterminated, ⟨_, List.prefix_refl _, hended⟩, strlen_storeOutput_lt (by omega) line s',
        sent_of_terminated hterminated⟩ (.inl hshort)
  · have hcut : t.text line = (cstr str1 ++ cstr str2).take K.linelen := by
      rw [if_neg (by rw [List.length_take]; omega)] at htext
      exact (Option.some.inj htext).symm
    constructor
    · rintro ⟨hterminated, ⟨pre, -, hended⟩, -, -⟩
      have hlt : (t.text line).length < K.linelen := Block.length_text_lt_iff.mpr hterminated
      rw [hcut, List.length_take] at hlt
      have hlen : (cstr str1 ++ cstr str2).length < K.linelen := by omega
      rw [hcut, List.take_of_length_le hlen.le] at hended
      exact .inr ⟨hlen, pre, hended.symm⟩
    · rintro (hlen | ⟨hlen, pre, hended⟩)
      · exact absurd hlen hshort
      · rw [List.take_of_length_le hlen.le] at hcut
        have hterminated : 0 ∈ (t.linemem.mem line).bytes := by
          rw [← Block.length_text_lt_iff]
          exact (congrArg List.length hcut).trans_lt hlen
        exact ⟨hterminated, ⟨pre, ⟨_, hended⟩, hcut.trans hended.symm⟩,
          strlen_storeOutput_lt hlen line s', sent_of_terminated hterminated⟩

end Server

namespace Telnetd

open Server

theorem shellOutput_selfContained_greeting :
    let s : Server conf Unit := .init ()
    ∃ line s', SelfContained (ascii "HILSim command shell") [] line s'
      (s.shellOutput (ascii "HILSim command shell") []) := by
  intro s
  exact ⟨_, _, (shellOutput_selfContained_iff s _ (ascii "HILSim command shell") [] _ rfl).mpr
    (.inl (by decide))⟩

/-- The reply to a command of 23 bytes fills its block, and has no NUL. -/
theorem not_shellOutput_selfContained :
    let s := (telnetdAppcall shell { connected := true, mss := 536 } (.init ())).1
    let t := (s.newdata shell (List.replicate 23 120 ++ [10])).1
    let line : Fin conf.numlines := ⟨3, by decide⟩
    (t.text line).length = 40 ∧ 0 ∉ (t.linemem.mem line).bytes ∧
      ∃ s', s.allocLine = some (line, s') ∧
        ¬SelfContained (ascii "Unknown command: ") (List.replicate 23 120) line s'
          (s.shellOutput (ascii "Unknown command: ") (List.replicate 23 120)) := by
  intro s t line
  refine ⟨by decide +kernel, by decide +kernel, _, rfl, fun h => ?_⟩
  have hterminated := h.terminated
  revert hterminated
  decide +kernel

end Telnetd

end OpenPLC
