import OpenPLC.Apps.Jsoncmd
import OpenPLC.Apps.Steps
import OpenPLC.Lib.Run

/-! The grammar of the command lines.  `decodeLines` gives the lines of a stream as a telnet server
should see them, and `newdata` passes exactly these lines to the shell, however the stream is cut
into segments. -/

namespace OpenPLC

open Lib

/-- The stream without its telnet escapes: IAC IAC stands for one 255 byte, IAC with WILL, WONT, DO,
or DONT for nothing, with the option byte after it, and IAC with any other byte for nothing. -/
def unescape : List UInt8 → List UInt8
  | [] => []
  | c :: cs =>
    if c ≠ 255 then c :: unescape cs
    else
      match cs with
      | [] => []
      | d :: cs =>
        if d = 255 then 255 :: unescape cs
        else if d ∈ [251, 252, 253, 254] then unescape (cs.drop 1)
        else unescape cs
termination_by cs => cs.length
decreasing_by all_goals (simp only [List.length_cons, List.length_drop]; omega)

theorem unescape_of_ne {c : UInt8} (h : c ≠ 255) (cs : List UInt8) :
    unescape (c :: cs) = c :: unescape cs := by
  rw [unescape.eq_def]
  simp [h]

theorem unescape_iac (c : UInt8) (cs : List UInt8) :
    unescape (255 :: c :: cs) =
      if c = 255 then 255 :: unescape cs
      else if c ∈ [251, 252, 253, 254] then unescape (cs.drop 1)
      else unescape cs := by
  rw [unescape.eq_def]
  simp

/-- The lines of a stream without CR, cut at each LF.  The last one is the line that has not
ended. -/
def decodeLines (cs : List UInt8) : List (List UInt8) :=
  ((unescape cs).filter (· ≠ 13)).splitOn 10

/-- The state of the decoder: the telnet escape that it is in, and the line so far. -/
structure Scan where
  state : TelnetState
  pending : List UInt8

namespace Scan

/-- A byte of text, with the line that it ends. -/
def text (x : Scan) (c : UInt8) : Scan × Option (List UInt8) :=
  if c = 13 then (x, none)
  else if c = 10 then ({ x with pending := [] }, some x.pending)
  else ({ x with pending := x.pending ++ [c] }, none)

/-- A byte of the stream, with the line that it ends. -/
def step (x : Scan) (c : UInt8) : Scan × Option (List UInt8) :=
  match x.state with
  | .normal => if c = 255 then ({ x with state := .iac }, none) else x.text c
  | .iac =>
    if c = 255 then ({ (x.text 255).1 with state := .normal }, (x.text 255).2)
    else if c = 251 then ({ x with state := .will }, none)
    else if c = 252 then ({ x with state := .wont }, none)
    else if c = 253 then ({ x with state := .do }, none)
    else if c = 254 then ({ x with state := .dont }, none)
    else ({ x with state := .normal }, none)
  | .close => (x, none)
  | _ => ({ x with state := .normal }, none)

/-- The bytes of a stream, with the lines that they end. -/
def run (x : Scan) : List UInt8 → Scan × List (List UInt8)
  | [] => (x, [])
  | c :: cs =>
    let r := (x.step c).1.run cs
    (r.1, (x.step c).2.toList ++ r.2)

/-- The lines of a stream, the last one of which has not ended. -/
def lines (x : Scan) (cs : List UInt8) : List (List UInt8) := (x.run cs).2 ++ [(x.run cs).1.pending]

theorem run_append (x : Scan) (cs ds : List UInt8) :
    x.run (cs ++ ds) =
      (((x.run cs).1.run ds).1, (x.run cs).2 ++ ((x.run cs).1.run ds).2) := by
  induction cs generalizing x with
  | nil => rfl
  | cons c cs ih => simp [run, ih]

theorem lines_append (x : Scan) (cs ds : List UInt8) :
    x.lines (cs ++ ds) = (x.run cs).2 ++ (x.run cs).1.lines ds := by
  simp [lines, run_append]

theorem lines_cons (x : Scan) (c : UInt8) (cs : List UInt8) :
    x.lines (c :: cs) = (x.step c).2.toList ++ (x.step c).1.lines cs := by
  simp [lines, run]

/-- The text that a stream still has for a decoder in a state. -/
def rest : TelnetState → List UInt8 → List UInt8
  | .normal, cs => unescape cs
  | .iac, cs => unescape (255 :: cs)
  | .close, _ => []
  | _, cs => unescape (cs.drop 1)

/-- The lines of the text after a line so far. -/
def linesOf (pending text : List UInt8) : List (List UInt8) :=
  ((text.filter (· ≠ 13)).splitOn 10).modifyHead (pending ++ ·)

theorem linesOf_nil (pending : List UInt8) : linesOf pending [] = [pending] := by
  simp [linesOf]

theorem linesOf_cons (x : Scan) (c : UInt8) (text : List UInt8) :
    linesOf x.pending (c :: text) = (x.text c).2.toList ++ linesOf (x.text c).1.pending text := by
  simp only [linesOf, Scan.text]
  by_cases h13 : c = 13
  · simp [h13]
  · by_cases h10 : c = 10
    · have hid (l : List (List UInt8)) : l = l.modifyHead fun x => x :=
        (congrFun List.modifyHead_id l).symm
      simpa [h10, List.splitOn_cons_eq_if_modifyHead] using hid _
    · simp [h13, h10, List.splitOn_cons_eq_if_modifyHead, Function.comp_def]

/-- The decoder follows the grammar. -/
theorem lines_eq (x : Scan) (hx : x.state ≠ .close) (cs : List UInt8) :
    x.lines cs = linesOf x.pending (rest x.state cs) := by
  induction cs generalizing x with
  | nil => cases hs : x.state <;> simp_all [lines, run, rest, unescape, linesOf_nil]
  | cons c cs ih =>
    obtain ⟨state, pending⟩ := x
    have option (state : TelnetState) (h : state = .will ∨ state = .wont ∨ state = .do ∨
        state = .dont) : Scan.lines ⟨state, pending⟩ (c :: cs) =
        linesOf pending (rest state (c :: cs)) := by
      rcases h with rfl | rfl | rfl | rfl <;> simp [lines_cons, step, ih, rest]
    have textCase (state : TelnetState) (d : UInt8) :
        ((Scan.text ⟨state, pending⟩ d).1.state = state) := by
      simp only [text]
      split_ifs <;> rfl
    cases state with
    | close => exact absurd rfl hx
    | will => exact option .will (by decide)
    | wont => exact option .wont (by decide)
    | «do» => exact option .do (by decide)
    | dont => exact option .dont (by decide)
    | normal =>
      by_cases hc : c = 255
      · simp [lines_cons, step, hc, ih, rest]
      · rw [lines_cons]
        simp only [step, hc, ↓reduceIte]
        rw [ih _ (by simp [textCase])]
        simp only [textCase, rest]
        rw [unescape_of_ne hc]
        exact (linesOf_cons ⟨.normal, pending⟩ c (unescape cs)).symm
    | iac =>
      rw [lines_cons, rest, unescape_iac]
      by_cases hc : c = 255
      · simp only [step, hc, ↓reduceIte]
        rw [ih _ (by simp)]
        exact (linesOf_cons ⟨.iac, pending⟩ 255 (unescape cs)).symm
      · simp only [step, hc, ↓reduceIte]
        by_cases h1 : c = 251
        · simp [h1, ih, rest]
        by_cases h2 : c = 252
        · simp [h2, ih, rest]
        by_cases h3 : c = 253
        · simp [h3, ih, rest]
        by_cases h4 : c = 254
        · simp [h4, ih, rest]
        · simp [h1, h2, h3, h4, ih, rest]

theorem decodeLines_eq (cs : List UInt8) : decodeLines cs = lines ⟨.normal, []⟩ cs := by
  rw [lines_eq ⟨.normal, []⟩ nofun]
  exact (congrFun List.modifyHead_id _).symm

theorem exists_lines_eq (x : Scan) (cs : List UInt8) :
    ∃ l ∈ x.lines cs, x.pending <+: l := by
  induction cs generalizing x with
  | nil => exact ⟨x.pending, by simp [lines, run], List.prefix_rfl⟩
  | cons c cs ih =>
    rw [lines_cons]
    have text (x : Scan) (c : UInt8) : x.pending <+: (x.text c).1.pending ∨
        (x.text c).2 = some x.pending := by
      simp only [Scan.text]
      split_ifs
      · exact .inl List.prefix_rfl
      · exact .inr rfl
      · exact .inl (List.prefix_append ..)
    have hstep : x.pending <+: (x.step c).1.pending ∨ (x.step c).2 = some x.pending := by
      simp only [step]
      split
      · split_ifs
        · exact .inl List.prefix_rfl
        · exact text x c
      · split_ifs
        · exact text x 255
        all_goals exact .inl List.prefix_rfl
      · exact .inl List.prefix_rfl
      · exact .inl List.prefix_rfl
    rcases hstep with h | h
    · obtain ⟨l, hl, hp⟩ := ih (x.step c).1
      exact ⟨l, List.mem_append_right _ hl, h.trans hp⟩
    · exact ⟨x.pending, by simp [h], List.prefix_rfl⟩

end Scan

/-- What `newdata` stores for a line before it calls the shell: the line, or a lone LF for an empty
line, and a NUL. -/
def passed (line : List UInt8) : List UInt8 := (if line = [] then [10] else line) ++ [0]

namespace Server

variable {K : Conf} {σ : Type*} {s : Server K σ} {x : Scan}

/-- The server is in the state of the decoder. -/
structure Decodes (s : Server K σ) (x : Scan) : Prop where
  state : s.state = x.state
  bufptr : s.bufptr = x.pending.length
  buf : s.buf.read 0 x.pending.length = x.pending
  lt : x.pending.length < K.linelen
  not_close : x.state ≠ .close

/-- From `s` to `t` the server passes these lines to the shell. -/
def Passes (s t : Server K σ) (lines : List (List UInt8)) : Prop :=
  ∃ bufs, t.inputs = s.inputs ++ bufs ∧
    List.Forall₂ (fun buf line => buf.length = K.linelen ∧ passed line <+: buf) bufs lines

theorem passes_of_inputs_eq {t : Server K σ} (h : t.inputs = s.inputs) : Passes s t [] :=
  ⟨[], by simpa using h, .nil⟩

theorem Passes.trans {t u : Server K σ} {ls ls' : List (List UInt8)} (h : Passes s t ls)
    (h' : Passes t u ls') : Passes s u (ls ++ ls') := by
  obtain ⟨bufs, ht, hall⟩ := h
  obtain ⟨bufs', hu, hall'⟩ := h'
  exact ⟨bufs ++ bufs', by rw [hu, ht, List.append_assoc], List.rel_append hall hall'⟩

theorem passed_prefix_endLine (buf : Mem) {n : Nat} (hn : n < K.linelen) :
    passed (buf.read 0 n) <+: (endLine K (buf.write n [10]) n).read 0 K.linelen := by
  have h4 := K.four_le_linelen
  set b := endLine K (buf.write n [10]) n with hb
  rcases n.eq_zero_or_pos with rfl | hpos
  · have hread : b.read 0 2 = [10, 0] := by
      rw [show b.read 0 2 = [b 0, b 1] from rfl]
      simp [hb, endLine, Mem.write, show 1 < K.linelen by omega]
    simpa [passed, Mem.read, ← hread] using b.read_prefix 0 (show 2 ≤ K.linelen by omega)
  · have hread : b.read 0 (n + 1) = buf.read 0 n ++ [0] := by
      rw [Mem.read_succ, Nat.zero_add, hb, endLine_apply_self hpos]
      congr 1
      refine Mem.read_congr fun i hi => ?_
      rw [Nat.zero_add, endLine_apply_of_lt hi, Mem.write_apply_of_lt hi]
    have hne : buf.read 0 n ≠ [] := by simp [← List.length_pos_iff, hpos]
    rw [passed, if_neg hne, ← hread]
    exact b.read_prefix 0 hn

/-- `get_char` either extends the line in the buffer, or ends the line and calls the shell. -/
theorem Decodes.getChar_cases (sh : Shell σ) (h : Decodes s x) {c : UInt8}
    (hlt : (x.text c).1.pending.length < K.linelen) :
    (∃ buf, (x.text c).2 = none ∧
      buf.read 0 (x.text c).1.pending.length = (x.text c).1.pending ∧
      s.getChar sh c = { s with buf, bufptr := (x.text c).1.pending.length }) ∨
    ∃ buf, x.text c = ({ x with pending := [] }, some x.pending) ∧
      passed x.pending <+: buf.read 0 K.linelen ∧
      s.getChar sh c = { ({ s with buf } : Server K σ).shellInput sh with bufptr := 0 } := by
  by_cases h13 : c = 13
  · have htext : x.text c = (x, none) := by simp [Scan.text, h13]
    refine .inl ⟨s.buf, by rw [htext], by rw [htext, h.buf], ?_⟩
    rw [htext, ← h.bufptr]
    rw [getChar_eq, if_pos h13]
  by_cases h10 : c = 10
  · subst h10
    refine .inr ⟨endLine K (s.buf.write s.bufptr [10]) s.bufptr, by simp [Scan.text], ?_, ?_⟩
    · have hend := passed_prefix_endLine s.buf (h.bufptr ▸ h.lt : s.bufptr < K.linelen)
      rwa [show s.buf.read 0 s.bufptr = x.pending by rw [h.bufptr, h.buf]] at hend
    · rw [getChar_eq, if_neg h13, if_pos (.inl rfl)]
  · have hp : (x.text c).1.pending = x.pending ++ [c] := by simp [Scan.text, h13, h10]
    have hptr : x.pending.length ≠ K.linelen - 1 := by
      rw [hp, List.length_append, List.length_singleton] at hlt
      omega
    refine .inl ⟨s.buf.write s.bufptr [c], by simp [Scan.text, h13, h10], ?_, ?_⟩
    · rw [hp, List.length_append, List.length_singleton, Mem.read_succ, h.bufptr,
        Mem.read_write_of_le (by omega), h.buf]
      simp [Mem.write]
    · simp [getChar_eq, h13, h10, hp, h.bufptr, hptr]

theorem Decodes.getChar (sh : QuietShell σ) (h : Decodes s x) {c : UInt8}
    (hlt : (x.text c).1.pending.length < K.linelen) :
    let t := s.getChar sh.toShell c
    t.bufptr = (x.text c).1.pending.length ∧
      t.buf.read 0 (x.text c).1.pending.length = (x.text c).1.pending ∧ t.state = s.state ∧
      Passes s t (x.text c).2.toList := by
  rcases h.getChar_cases sh.toShell hlt with ⟨buf, hnone, hbuf, hget⟩ | ⟨buf, htext, hpass, hget⟩
  · rw [hget, hnone]
    exact ⟨rfl, hbuf, rfl, passes_of_inputs_eq rfl⟩
  · obtain ⟨-, hstate, hinputs⟩ := shellInput_quiet_state sh { s with buf }
    rw [hget, htext]
    exact ⟨rfl, rfl, hstate, [buf.read 0 K.linelen], hinputs, .cons ⟨by simp, hpass⟩ .nil⟩

theorem Decodes.newChar (sh : QuietShell σ) (h : Decodes s x) {c : UInt8}
    (hlt : (x.step c).1.pending.length < K.linelen) :
    Decodes (s.newChar sh.toShell c) (x.step c).1 ∧
      Passes s (s.newChar sh.toShell c) (x.step c).2.toList := by
  have keep {t : Server K σ} {y : Scan} (hp : y.pending = x.pending) (hs : t.state = y.state)
      (hb : t.buf = s.buf) (hn : t.bufptr = s.bufptr) (hc : y.state ≠ .close)
      (hi : t.inputs = s.inputs) : Decodes t y ∧ Passes s t [] :=
    ⟨⟨hs, by rw [hn, h.bufptr, hp], by rw [hb, hp, h.buf], hp ▸ h.lt, hc⟩, passes_of_inputs_eq hi⟩
  have option (o : UInt8) :
      Decodes { s.sendopt o c with state := .normal } { x with state := .normal } ∧
        Passes s { s.sendopt o c with state := .normal } [] := by
    have hsame := (sendopt_step (Q := False) o c s).sameParser
    exact keep rfl rfl hsame.buf hsame.bufptr (by simp) hsame.inputs
  have text (d : UInt8) (st : TelnetState) (hst : st ≠ .close)
      (hd : (x.text d).1.pending.length < K.linelen) :
      Decodes { s.getChar sh.toShell d with state := st } { (x.text d).1 with state := st } ∧
        Passes s { s.getChar sh.toShell d with state := st } (x.text d).2.toList := by
    obtain ⟨hptr, hbuf, -, hpass⟩ := h.getChar sh hd
    exact ⟨⟨rfl, hptr, hbuf, hd, hst⟩, hpass⟩
  simp only [Server.newChar, Scan.step, h.state] at hlt ⊢
  cases hs : x.state with
  | close => exact absurd hs h.not_close
  | will => exact option 254
  | wont => exact option 254
  | «do» => exact option 252
  | dont => exact option 252
  | normal =>
    simp only [hs] at hlt ⊢
    split_ifs with hc
    · exact keep rfl rfl rfl rfl (by simp) rfl
    · rw [if_neg hc] at hlt
      have hstate : (x.text c).1.state = .normal := by
        simp only [Scan.text]
        split_ifs <;> exact hs
      obtain ⟨hptr, hbuf, hsame, hpass⟩ := h.getChar sh hlt
      rw [h.state, hs, ← hstate] at hsame
      exact ⟨⟨hsame, hptr, hbuf, hlt, by simp [hstate]⟩, hpass⟩
  | iac =>
    simp only [hs] at hlt ⊢
    split_ifs with hc h1 h2 h3 h4
    · rw [if_pos hc] at hlt
      exact hc ▸ text 255 .normal (by simp) hlt
    all_goals exact keep rfl rfl rfl rfl (by simp) rfl

theorem Decodes.newdata (sh : QuietShell σ) (h : Decodes s x) (cs rest : List UInt8)
    (hlen : ∀ l ∈ x.lines (cs ++ rest), l.length < K.linelen) :
    (s.newdata sh.toShell cs).2 = [] ∧ Decodes (s.newdata sh.toShell cs).1 (x.run cs).1 ∧
      Passes s (s.newdata sh.toShell cs).1 (x.run cs).2 := by
  induction cs generalizing s x with
  | nil => exact ⟨rfl, h, passes_of_inputs_eq rfl⟩
  | cons c cs ih =>
    rw [List.cons_append, Scan.lines_cons] at hlen
    have hlen' : ∀ l ∈ (x.step c).1.lines (cs ++ rest), l.length < K.linelen :=
      fun l hl => hlen l (List.mem_append_right _ hl)
    obtain ⟨l, hl, hpre⟩ := (x.step c).1.exists_lines_eq (cs ++ rest)
    obtain ⟨hd, hp⟩ := h.newChar sh (hpre.length_le.trans_lt (hlen' l hl))
    obtain ⟨hrest, hd', hp'⟩ := ih hd hlen'
    simp only [Server.newdata, h.bufptr, h.lt, ↓reduceIte]
    exact ⟨hrest, hd', hp.trans hp'⟩

/-- Segment after segment, with the bytes that `newdata` leaves unread. -/
def feed (sh : Shell σ) (r : Server K σ × List UInt8) (cs : List UInt8) :
    Server K σ × List UInt8 :=
  ((r.1.newdata sh cs).1, r.2 ++ (r.1.newdata sh cs).2)

theorem Decodes.feed (sh : QuietShell σ) (h : Decodes s x) (segs : List (List UInt8))
    (hlen : ∀ l ∈ x.lines segs.flatten, l.length < K.linelen) :
    let r := run (feed sh.toShell) (s, []) segs
    r.2 = [] ∧ Decodes r.1 (x.run segs.flatten).1 ∧ Passes s r.1 (x.run segs.flatten).2 := by
  induction segs generalizing s x with
  | nil => exact ⟨rfl, h, passes_of_inputs_eq rfl⟩
  | cons cs segs ih =>
    rw [List.flatten_cons] at hlen ⊢
    obtain ⟨hrest, hd, hp⟩ := h.newdata sh _ _ hlen
    rw [Scan.lines_append] at hlen
    obtain ⟨hrest', hd', hp'⟩ := ih hd fun l hl => hlen l (List.mem_append_right _ hl)
    rw [Scan.run_append, run_cons, Server.feed, hrest]
    exact ⟨hrest', hd', hp.trans hp'⟩

end Server

namespace Jsoncmd

/-- From the start of a line, `newdata` reads every byte and passes the lines of the stream to the
shell, each one in the buffer and with a NUL after it.  The state that it leaves is that of the
stream in one segment, and the buffer has the line that has not ended. -/
theorem newdata_decodes {σ : Type*} (sh : QuietShell σ) (s : Server conf σ) (hptr : s.bufptr = 0)
    (hstate : s.state = .normal) (segs : List (List UInt8))
    (hlen : ∀ line ∈ decodeLines segs.flatten, line.length ≤ conf.linelen - 1) :
    let r := run (Server.feed sh.toShell) (s, []) segs
    let t := r.1
    r.2 = [] ∧
      (∃ bufs, t.inputs = s.inputs ++ bufs ∧
        List.Forall₂ (fun buf line => buf.length = conf.linelen ∧ passed line <+: buf) bufs
          (decodeLines segs.flatten).dropLast) ∧
      t.bufptr < conf.linelen ∧
      (decodeLines segs.flatten).getLast? = some (t.buf.read 0 t.bufptr) ∧
      t.state = (s.newdata sh.toShell segs.flatten).1.state ∧
      t.bufptr = (s.newdata sh.toShell segs.flatten).1.bufptr := by
  let x : Scan := ⟨.normal, []⟩
  have h0 : s.Decodes x := ⟨hstate, hptr, rfl, by decide, nofun⟩
  have hlines : x.lines segs.flatten = decodeLines segs.flatten := (Scan.decodeLines_eq _).symm
  have hlt : ∀ l ∈ x.lines segs.flatten, l.length < conf.linelen := fun l hl =>
    Nat.lt_of_le_pred (by decide) (hlen l (hlines ▸ hl))
  obtain ⟨hrest, hd, hp⟩ := h0.feed sh segs hlt
  obtain ⟨-, hd', -⟩ := h0.newdata sh segs.flatten [] (by simpa using hlt)
  rw [← hlines, Scan.lines, List.dropLast_concat, List.getLast?_concat]
  refine ⟨hrest, hp, hd.bufptr ▸ hd.lt, ?_, hd.state.trans hd'.state.symm,
    hd.bufptr.trans hd'.bufptr.symm⟩
  rw [hd.bufptr, hd.buf]

/-- An option request, a line of two bytes cut in two, an empty line, and a line that has not
ended. -/
theorem newdata_decodes_segments :
    let sh := shell defaultCallbacks
    let segs := [[255, 251, 1, 104], [105, 10, 10, 120]]
    let s : Server conf ShellState := .init ⟨fun _ => 0, fun _ => 0, 0, 0, [], false⟩
    let r := run (Server.feed sh.toShell) (s, []) segs
    decodeLines segs.flatten = [[104, 105], [], [120]] ∧ r.2 = [] ∧
      [[104, 105], [], [120]].getLast? = some (r.1.buf.read 0 r.1.bufptr) := by
  intro sh segs s r
  have hlines : decodeLines segs.flatten = [[104, 105], [], [120]] := by
    simp [decodeLines, segs, unescape_iac, unescape_of_ne, unescape.eq_1,
      List.splitOn_cons_eq_if_modifyHead]
  have h := newdata_decodes sh s rfl rfl segs (by rw [hlines]; decide)
  exact ⟨hlines, h.1, hlines ▸ h.2.2.2.1⟩

end Jsoncmd

end OpenPLC
