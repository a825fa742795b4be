import OpenPLC.Apps.Decoder
import Mathlib.Algebra.GroupWithZero.Nat

/-! Lines that do not fit in the buffer.  `get_char` calls the shell at the end of a line and also
when the buffer is full, so that the number of calls is a count of buffers, and not of lines. -/

namespace OpenPLC

open Lib

namespace Server

variable {K : Conf} {σ : Type*} {s t u : Server K σ} {x y z : Scan}

/-- The server is in the state of the decoder, with what is left of the line after full buffers. -/
structure Wraps (s : Server K σ) (x : Scan) : Prop where
  state : s.state = x.state
  bufptr : s.bufptr = x.pending.length % K.linelen
  not_close : x.state ≠ .close

/-- The number of times that `get_char` calls the shell for a line that ends. -/
def callsFor (K : Conf) (line : List UInt8) : Nat := line.length / K.linelen + 1

/-- The calls of the shell from `s` to `t`, while the decoder goes from `x` to `y`: one for each
buffer that is filled, and one for each of `lines`. -/
def Counts (s t : Server K σ) (x y : Scan) (lines : List (List UInt8)) : Prop :=
  t.inputs.length + x.pending.length / K.linelen =
    s.inputs.length + (lines.map (callsFor K)).sum + y.pending.length / K.linelen

theorem counts_of_same (hi : t.inputs = s.inputs) (hp : y.pending = x.pending) :
    Counts s t x y [] := by
  simp [Counts, hi, hp]

theorem Counts.trans {ls ls' : List (List UInt8)} (h : Counts s t x y ls)
    (h' : Counts t u y z ls') : Counts s u x z (ls ++ ls') := by
  simp only [Counts, List.map_append, List.sum_append] at h h' ⊢
  omega

theorem succ_mod_div (n : Nat) {m : Nat} (hm : 0 < m) :
    (n % m = m - 1 → (n + 1) % m = 0 ∧ (n + 1) / m = n / m + 1) ∧
      (n % m ≠ m - 1 → (n + 1) % m = n % m + 1 ∧ (n + 1) / m = n / m) := by
  have hlt := Nat.mod_lt n hm
  have hn := Nat.div_add_mod n m
  constructor
  · intro h
    have hs : n + 1 = m * (n / m + 1) := by
      rw [Nat.mul_add, Nat.mul_one]
      omega
    rw [hs]
    exact ⟨Nat.mul_mod_right .., Nat.mul_div_cancel_left _ hm⟩
  · intro h
    have hs : n + 1 = n % m + 1 + m * (n / m) := by omega
    have hs' : n % m + 1 < m := by omega
    constructor
    · rw [hs, Nat.add_mul_mod_self_left, Nat.mod_eq_of_lt hs']
    · rw [hs, Nat.add_mul_div_left _ _ hm, Nat.div_eq_of_lt hs', Nat.zero_add]

theorem Wraps.getChar (sh : QuietShell σ) (h : Wraps s x) (c : UInt8) :
    let t := s.getChar sh.toShell c
    t.bufptr = (x.text c).1.pending.length % K.linelen ∧ t.state = s.state ∧
      Counts s t x (x.text c).1 (x.text c).2.toList := by
  by_cases h13 : c = 13
  · simpa [getChar_eq, Scan.text, h13] using ⟨h.bufptr, counts_of_same rfl rfl⟩
  rw [getChar_eq, if_neg h13]
  have call (buf : Mem) := shellInput_quiet_state sh { s with buf }
  by_cases h10 : c = 10
  · subst h10
    obtain ⟨-, hstate, hinputs⟩ := call (endLine K (s.buf.write s.bufptr [10]) s.bufptr)
    rw [if_pos (.inl rfl)]
    refine ⟨by simp [Scan.text], hstate, ?_⟩
    have hlen := congrArg List.length hinputs
    simp only [List.length_append, List.length_singleton] at hlen
    simp only [Counts, Scan.text, Option.toList, callsFor, List.map_cons, List.map_nil,
      List.sum_singleton, reduceIte, List.length_nil, Nat.zero_div,
      show ¬(10 : UInt8) = 13 by decide]
    exact (congrArg (· + x.pending.length / K.linelen) hlen).trans (by simp [inputs]; omega)
  · have htext : x.text c = ({ x with pending := x.pending ++ [c] }, none) := by
      simp [Scan.text, h13, h10]
    obtain ⟨hfull, hroom⟩ := succ_mod_div x.pending.length K.linelen_pos
    rw [htext]
    simp only [h10, false_or, h.bufptr, Counts, Option.toList, List.map_nil, List.sum_nil,
      List.length_append, List.length_singleton]
    split
    · next hptr =>
      obtain ⟨hmod, hdiv⟩ := hfull hptr
      obtain ⟨-, hstate, hinputs⟩ := call (endLine K (s.buf.write s.bufptr [c]) s.bufptr)
      rw [← h.bufptr, hmod, hdiv]
      refine ⟨rfl, hstate, ?_⟩
      have hlen := congrArg List.length hinputs
      simp only [List.length_append, List.length_singleton] at hlen
      exact (congrArg (· + x.pending.length / K.linelen) hlen).trans (by simp [inputs]; omega)
    · next hptr =>
      obtain ⟨hmod, hdiv⟩ := hroom hptr
      rw [hmod, hdiv]
      exact ⟨rfl, rfl, rfl⟩

theorem Wraps.newChar (sh : QuietShell σ) (h : Wraps s x) (c : UInt8) :
    Wraps (s.newChar sh.toShell c) (x.step c).1 ∧
      Counts s (s.newChar sh.toShell c) x (x.step c).1 (x.step c).2.toList := by
  have keep {t : Server K σ} {y : Scan} (hp : y.pending = x.pending) (hs : t.state = y.state)
      (hn : t.bufptr = s.bufptr) (hc : y.state ≠ .close) (hi : t.inputs = s.inputs) :
      Wraps t y ∧ Counts s t x y [] :=
    ⟨⟨hs, by rw [hn, h.bufptr, hp], hc⟩, counts_of_same hi hp⟩
  have option (o : UInt8) :
      Wraps { s.sendopt o c with state := .normal } { x with state := .normal } ∧
        Counts s { s.sendopt o c with state := .normal } x { x with state := .normal } [] := by
    have hsame := (sendopt_step (Q := False) o c s).sameParser
    exact keep rfl rfl hsame.bufptr (by simp) hsame.inputs
  simp only [Server.newChar, Scan.step, h.state]
  cases hs : x.state with
  | close => exact absurd hs h.not_close
  | will => exact option 254
  | wont => exact option 254
  | «do» => exact option 252
  | dont => exact option 252
  | normal =>
    simp only
    split_ifs with hc
    · exact keep rfl rfl rfl (by simp) rfl
    · obtain ⟨hptr, hstate, hcount⟩ := h.getChar sh c
      have htext : (x.text c).1.state = .normal := by
        simp only [Scan.text]
        split_ifs <;> exact hs
      exact ⟨⟨by rw [hstate, h.state, hs, htext], hptr, by simp [htext]⟩, hcount⟩
  | iac =>
    simp only
    split_ifs with hc h1 h2 h3 h4
    · subst hc
      obtain ⟨hptr, -, hcount⟩ := h.getChar sh 255
      exact ⟨⟨rfl, hptr, (by simp)⟩, hcount⟩
    all_goals exact keep rfl rfl rfl (by simp) rfl

theorem Wraps.newdata (sh : QuietShell σ) (h : Wraps s x) (cs : List UInt8) :
    Wraps (s.newdata sh.toShell cs).1 (x.run cs).1 ∧
      Counts s (s.newdata sh.toShell cs).1 x (x.run cs).1 (x.run cs).2 := by
  induction cs generalizing s x with
  | nil => exact ⟨h, counts_of_same rfl rfl⟩
  | cons c cs ih =>
    have hlt : s.bufptr < K.linelen := by
      rw [h.bufptr]
      exact Nat.mod_lt _ K.linelen_pos
    obtain ⟨hw, hc⟩ := h.newChar sh c
    obtain ⟨hw', hc'⟩ := ih hw
    simp only [Server.newdata, hlt, ↓reduceIte]
    exact ⟨hw', hc.trans hc'⟩

theorem Wraps.feed (sh : QuietShell σ) (h : Wraps s x) (rest : List UInt8)
    (segs : List (List UInt8)) :
    let r := run (Server.feed sh.toShell) (s, rest) segs
    Wraps r.1 (x.run segs.flatten).1 ∧
      Counts s r.1 x (x.run segs.flatten).1 (x.run segs.flatten).2 := by
  induction segs generalizing s x rest with
  | nil => exact ⟨h, counts_of_same rfl rfl⟩
  | cons cs segs ih =>
    obtain ⟨hw, hc⟩ := h.newdata sh cs
    obtain ⟨hw', hc'⟩ := ih hw (rest ++ (s.newdata sh.toShell cs).2)
    rw [List.flatten_cons, Scan.run_append, run_cons]
    exact ⟨hw', hc.trans hc'⟩

/-- A line with its LF, or a part of it from its start, is in the buffer with a NUL after it. -/
def HoldsPrefix (buf line : List UInt8) : Prop :=
  ∃ p, p <+: line ++ [10] ∧ p ++ [0] <+: buf

/-- From `s` to `t` the server calls the shell exactly once for each line, with a buffer that holds
the line or the start of it. -/
def CallsPerLine (s t : Server K σ) (lines : List (List UInt8)) : Prop :=
  ∃ bufs, t.inputs = s.inputs ++ bufs ∧ List.Forall₂ HoldsPrefix bufs lines

theorem Passes.callsPerLine {lines : List (List UInt8)} (h : Passes s t lines) :
    CallsPerLine s t lines := by
  obtain ⟨bufs, hinputs, hall⟩ := h
  refine ⟨bufs, hinputs, hall.imp fun buf line hbuf => ?_⟩
  refine ⟨if line = [] then [10] else line, ?_, hbuf.2⟩
  split
  · next h => simp [h]
  · exact List.prefix_append ..

theorem sum_callsFor (ls : List (List UInt8)) :
    (ls.map (callsFor K)).sum = (ls.map fun l => l.length / K.linelen).sum + ls.length := by
  induction ls with
  | nil => rfl
  | cons l ls ih =>
    simp only [List.map_cons, List.sum_cons, List.length_cons, ih, callsFor]
    omega

/-- With one call for each line, no line fills the buffer. -/
theorem Counts.length_lt {ls : List (List UInt8)} (h : Counts s t ⟨.normal, []⟩ y ls)
    (hcalls : CallsPerLine s t ls) : ∀ l ∈ ls ++ [y.pending], l.length < K.linelen := by
  obtain ⟨bufs, hinputs, hall⟩ := hcalls
  have htotal : (ls.map fun l => l.length / K.linelen).sum + y.pending.length / K.linelen = 0 := by
    simp only [Counts, hinputs, List.length_append, hall.length_eq, sum_callsFor, List.length_nil,
      Nat.zero_div] at h
    omega
  have hzero {l : List UInt8} (hl : l.length / K.linelen = 0) : l.length < K.linelen :=
    (Nat.div_eq_zero_iff.mp hl).resolve_left K.linelen_pos.ne'
  obtain ⟨hls, hy⟩ := Nat.add_eq_zero_iff.mp htotal
  intro l hl
  rcases List.mem_append.mp hl with hl | hl
  · exact hzero (List.sum_eq_zero_iff_forall_eq_nat.mp hls _ (List.mem_map_of_mem hl))
  · rw [List.mem_singleton.mp hl]
    exact hzero hy

end Server

namespace Jsoncmd

/-- From the start of a line, the shell is called exactly once for each line that ends in the
stream, with the line or the start of it, if and only if every line of the stream fits in the
buffer. -/
theorem line_once_iff {σ : Type*} (sh : QuietShell σ) (s : Server conf σ) (hptr : s.bufptr = 0)
    (hstate : s.state = .normal) (segs : List (List UInt8)) :
    s.CallsPerLine (run (Server.feed sh.toShell) (s, []) segs).1
        (decodeLines segs.flatten).dropLast ↔
      ∀ line ∈ decodeLines segs.flatten, line.length ≤ conf.linelen - 1 := by
  let x : Scan := ⟨.normal, []⟩
  have hlines : decodeLines segs.flatten = x.lines segs.flatten := Scan.decodeLines_eq _
  rw [hlines, Scan.lines, List.dropLast_concat]
  constructor
  · intro hcalls line hline
    have hw : s.Wraps x := ⟨hstate, hptr, (by simp)⟩
    exact Nat.le_pred_of_lt ((hw.feed sh [] segs).2.length_lt hcalls line hline)
  · intro hlen
    have h0 : s.Decodes x := ⟨hstate, hptr, rfl, by decide, (by simp)⟩
    have hlt : ∀ l ∈ x.lines segs.flatten, l.length < conf.linelen := fun l hl =>
      Nat.lt_of_le_pred (by decide) (hlen l hl)
    exact (h0.feed sh segs hlt).2.2.callsPerLine

/-- An option request in a line that is cut in two, an empty line, and a line that has not ended. -/
theorem line_once_iff_segments :
    let s : Server conf ShellState := .init shellState
    let segs := [[104, 255, 251, 1], [105, 10, 10, 120]]
    s.CallsPerLine (run (Server.feed (shell physCallbacks).toShell) (s, []) segs).1
      (decodeLines segs.flatten).dropLast := by
  intro s segs
  refine (line_once_iff (shell physCallbacks) s rfl rfl segs).mpr ?_
  rw [Scan.decodeLines_eq]
  decide

/-- 80 bytes of text, and then a command that sets every output. -/
def overlong : List UInt8 :=
  List.replicate 80 120 ++ ascii "\"setvalues\"[1,1,1,1,1,1,1,1]" ++ [10]

/-- The line has one LF, and the shell is called twice: the second call runs the end of the line. -/
theorem not_line_once :
    let s : Server conf ShellState := .init shellState
    let t := (run (Server.feed (shell physCallbacks).toShell) (s, []) [overlong]).1
    (decodeLines overlong).length = 2 ∧ t.inputs.length = 2 ∧ t.shell.portc = 255 ∧
      ¬s.CallsPerLine t (decodeLines overlong).dropLast := by
  intro s t
  have hlines : (decodeLines overlong).length = 2 := by
    rw [Scan.decodeLines_eq]
    decide +kernel
  have hinputs : t.inputs.length = 2 := by decide +kernel
  refine ⟨hlines, hinputs, by decide +kernel, ?_⟩
  rintro ⟨bufs, hbufs, hall⟩
  have hlen := hall.length_eq
  rw [hbufs, List.length_append, hlen, List.length_dropLast, hlines] at hinputs
  cases hinputs

end Jsoncmd

end OpenPLC
