import OpenPLC.Apps.Ownership

/-! Two states of the line server that agree on what one connection can see of it.  The lines agree
without the texts of blocks that no slot holds; the parser agrees without the bytes of the buffer
that the pending line does not use. -/

namespace OpenPLC

open Lib

theorem Memb.alloc_congr {size num : Nat} {m m' : Memb size num} (h : m.count = m'.count) :
    m.alloc.map Prod.fst = m'.alloc.map Prod.fst := by
  simp only [alloc, h]
  split <;> rfl

theorem cstr_read_congr {m m' : Mem} {k n : Nat} (h : ∀ i ≤ k, m i = m' i) (h0 : m k = 0)
    (hk : k < n) : cstr (m.read 0 n) = cstr (m'.read 0 n) := by
  have hcut (m : Mem) (h0 : m k = 0) : cstr (m.read 0 n) = cstr (m.read 0 k) := by
    obtain ⟨rest, hrest⟩ := m.read_prefix 0 (Nat.succ_le_of_lt hk)
    rw [← hrest, Mem.read_succ, Nat.zero_add, h0, List.append_assoc]
    exact cstr_append_zero _ _
  rw [hcut m h0, hcut m' (by rw [← h k le_rfl, h0]),
    Mem.read_congr fun i hi => by simpa using h i (by omega)]

namespace Server

variable {K : Conf} {Q : Prop} {s t s' t' : Server K Unit}

/-- The strings that the shell is given. -/
def commands (s : Server K Unit) : List (List UInt8) := s.inputs.map cstr

/-- The blocks that are freed. -/
def freedLines (s : Server K Unit) : List (Fin K.numlines) := s.trace.filterMap Obs.freed?

/-- The server without its trace so far. -/
def clearTrace (s : Server K Unit) : Server K Unit := { s with trace := [] }

/-- The same lines, with the same texts in the slots, after the same commands and freed blocks. -/
structure SameLines (s t : Server K Unit) : Prop where
  count : s.linemem.count = t.linemem.count
  lines : s.lines = t.lines
  text : ∀ b, some b ∈ s.lines.val → s.text b = t.text b
  commands : s.commands = t.commands
  freed : s.freedLines = t.freedLines

/-- The same pending line and telnet state. -/
structure SamePending (s t : Server K Unit) : Prop where
  bufptr : s.bufptr = t.bufptr
  state : s.state = t.state
  buf : ∀ i < s.bufptr, s.buf i = t.buf i

/-- No slot holds a line. -/
def NoLines (s : Server K Unit) : Prop := ∀ b, some b ∉ s.lines.val

/-- The parser is at the start of a line. -/
def AtStart (s : Server K Unit) : Prop := s.bufptr = 0 ∧ s.state = .normal

instance (s : Server K Unit) : Decidable s.NoLines := inferInstanceAs (Decidable (∀ _, _))

instance (s : Server K Unit) : Decidable s.AtStart := inferInstanceAs (Decidable (_ ∧ _))

theorem AtStart.samePending (hs : s.AtStart) (ht : t.AtStart) : SamePending s t :=
  ⟨hs.1.trans ht.1.symm, hs.2.trans ht.2.symm, by simp [hs.1]⟩

theorem SamePending.atStart (h : SamePending s t) (hs : s.AtStart) : t.AtStart :=
  ⟨h.bufptr ▸ hs.1, h.state ▸ hs.2⟩

theorem SamePending.of_sameParser (h : SamePending s t) (hs : SameParser False s s')
    (ht : SameParser False t t') : SamePending s' t' where
  bufptr := by rw [hs.bufptr, ht.bufptr, h.bufptr]
  state := by rw [hs.state.resolve_right (·.1), ht.state.resolve_right (·.1), h.state]
  buf := by
    rw [hs.bufptr, hs.buf, ht.buf]
    exact h.buf

theorem SameLines.noLines (h : SameLines s t) (hs : s.NoLines) : t.NoLines := by
  simpa only [NoLines, h.lines] using hs

theorem SameLines.allFree (h : SameLines s t) (hs : s.linemem.AllFree) : t.linemem.AllFree :=
  fun b => h.count ▸ hs b

theorem NoLines.lines_eq (h : s.NoLines) : s.lines = .empty := by
  refine Slots.ext (List.eq_replicate_iff.mpr ⟨s.lines.length_eq, fun l hl => ?_⟩)
  cases l with
  | none => rfl
  | some b => exact absurd hl (h b)

theorem NoLines.sameLines (hs : s.NoLines) (ht : t.NoLines) (hsf : s.linemem.AllFree)
    (htf : t.linemem.AllFree) (htrace : s.trace = t.trace) : SameLines s t where
  count := funext fun b => (hsf b).trans (htf b).symm
  lines := hs.lines_eq.trans ht.lines_eq.symm
  text b hb := absurd hb (hs b)
  commands := by simp only [Server.commands, inputs, htrace]
  freed := by simp only [freedLines, htrace]

/-! ### Lines -/

theorem commands_log (s : Server K Unit) (e : Obs K.numlines) :
    (s.log e).commands = s.commands ++ (e.input?.map cstr).toList := by
  simp only [commands, inputs, Server.log, List.filterMap_append, List.map_append]
  cases e <;> rfl

theorem freedLines_log (s : Server K Unit) (e : Obs K.numlines) :
    (s.log e).freedLines = s.freedLines ++ e.freed?.toList := by
  simp only [freedLines, Server.log, List.filterMap_append]
  cases e <;> rfl

theorem SameLines.log (h : SameLines s t) {e e' : Obs K.numlines}
    (hin : e.input?.map cstr = e'.input?.map cstr) (hfreed : e.freed? = e'.freed?) :
    SameLines (s.log e) (t.log e') where
  count := h.count
  lines := h.lines
  text := h.text
  commands := by
    simp only [commands_log, h.commands, hin]
  freed := by
    simp only [freedLines_log, h.freed, hfreed]

theorem SameLines.deallocLine (h : SameLines s t) (line : Fin K.numlines) :
    SameLines (s.deallocLine line) (t.deallocLine line) where
  count := by simp only [Server.deallocLine, Memb.free_count, h.count]
  lines := h.lines
  text b hb := by
    have := h.text b hb
    simpa only [Server.text, Server.deallocLine, Memb.free_mem] using this
  commands := by
    simp only [Server.commands, deallocLine_inputs]
    exact h.commands
  freed := by
    have hf := h.freed
    simp only [freedLines] at hf
    simp only [freedLines, Server.deallocLine, List.filterMap_append, hf, h.count]

theorem SameLines.sendline (h : SameLines s t) {line : Fin K.numlines}
    (htext : s.text line = t.text line) : SameLines (s.sendline line) (t.sendline line) := by
  simp only [Server.sendline, ← h.lines, ← htext]
  split
  · next lines hpush =>
    have hset : SameLines { s with lines } { t with lines } := by
      refine ⟨h.count, rfl, fun b hb => ?_, h.commands, h.freed⟩
      rcases (Slots.mem_push hpush).mp hb with rfl | hb
      · exact htext
      · exact h.text b hb
    exact hset.log rfl rfl
  · exact (h.log (e := .overflow) rfl rfl).deallocLine line

theorem SameLines.lineStep (h : SameLines s t) {text : Option (List UInt8)}
    (hs : LineStep Q s text s') (ht : LineStep Q t text t') : SameLines s' t' := by
  have halloc := Memb.alloc_congr h.count
  generalize htext : text = text' at ht
  cases hs with
  | quit =>
    cases ht with
    | quit => exact ⟨h.count, h.lines, h.text, h.commands, h.freed⟩
    | _ => cases htext
  | drop hs =>
    cases ht with
    | quit => cases htext
    | drop => exact h.log rfl rfl
    | put line m ht =>
      obtain ⟨_, ht⟩ := ht
      simp [hs, ht] at halloc
  | put line m hs hcount hmem =>
    obtain ⟨_, hs⟩ := hs
    cases ht with
    | quit => cases htext
    | drop ht => simp [hs, ht] at halloc
    | put line' m' ht hcount' hmem' =>
      obtain ⟨_, ht⟩ := ht
      obtain rfl : line = line' := by simpa [hs, ht] using halloc
      have hline : (m.mem line).text = (m'.mem line).text := Option.some.inj htext
      have hput : SameLines { s with linemem := m } { t with linemem := m' } := by
        refine ⟨by rw [hcount, hcount', h.count], h.lines, fun b hb => ?_, h.commands, h.freed⟩
        by_cases hb' : b = line
        · rw [hb']
          exact hline
        · simp only [Server.text, hmem b hb', hmem' b hb']
          exact h.text b hb
      exact hput.sendline hline

theorem SameLines.lineSteps (h : SameLines s t) {texts : List (Option (List UInt8))}
    (hs : LineSteps Q s texts s') (ht : LineSteps Q t texts t') : SameLines s' t' := by
  induction hs generalizing t with
  | refl =>
    cases ht
    exact h
  | head hs _ ih =>
    cases ht with
    | head ht hts => exact ih (h.lineStep hs ht) hts

theorem SameLines.ackLine (h : SameLines s t) : SameLines s.ackLine t.ackLine := by
  have shift {s t : Server K Unit} (h : SameLines s t) (n n' : Nat) :
      SameLines { s with lines := s.lines.shift, numsent := n }
        { t with lines := t.lines.shift, numsent := n' } := by
    refine ⟨h.count, congrArg Slots.shift h.lines, fun b hb => h.text b ?_, h.commands, h.freed⟩
    simpa using List.mem_of_mem_tail hb
  simp only [Server.ackLine, ← h.lines]
  split
  · next line _ => exact shift (h.deallocLine line) _ _
  · exact shift h _ _

theorem SameLines.ackLines (h : SameLines s t) (n : Nat) :
    SameLines (ackLines n s) (ackLines n t) := by
  induction n generalizing s t with
  | zero => exact h
  | succ n ih => exact ih h.ackLine

theorem SameLines.closed (h : SameLines s t) : SameLines s.closed t.closed := by
  simp only [Server.closed, ← h.lines]
  generalize s.lines.val.filterMap id = ls
  induction ls generalizing s t with
  | nil => exact h
  | cons l ls ih => exact ih (h.deallocLine l)

theorem closed_lines (s : Server K Unit) : s.closed.lines = s.lines :=
  foldl_deallocLine_lines ..

theorem closed_numsent (s : Server K Unit) : s.closed.numsent = s.numsent := by
  simp only [Server.closed]
  generalize s.lines.val.filterMap id = ls
  induction ls generalizing s with
  | nil => rfl
  | cons l ls ih => exact ih (s.deallocLine l)

theorem fill_congr {ls : List (Option (Fin K.numlines))}
    (h : ∀ b, some b ∈ ls → s.text b = t.text b) (mss n : Nat) :
    s.fill mss ls n = t.fill mss ls n := by
  induction ls generalizing n with
  | nil => rfl
  | cons l ls ih =>
    cases l with
    | none => rfl
    | some b => simp only [fill_some, h b (by simp), ih fun c hc => h c (by simp [hc])]

theorem SameLines.senddata (h : SameLines s t) (mss : Nat) :
    SameLines (s.senddata mss).1 (t.senddata mss).1 ∧
      (s.senddata mss).1.numsent = (t.senddata mss).1.numsent ∧
      (s.senddata mss).2 = (t.senddata mss).2 := by
  have hfill : s.fill mss s.lines.val 0 = t.fill mss t.lines.val 0 := by
    rw [fill_congr h.text, h.lines]
  exact ⟨⟨h.count, h.lines, h.text, h.commands, h.freed⟩, congrArg (·.1) hfill,
    congrArg (·.2) hfill⟩

/-! ### Acknowledgments -/

/-- The lines agree, and the number of lines in the last segment does if there are any. -/
structure SameSent (s t : Server K Unit) : Prop where
  lines : SameLines s t
  numsent : s.numsent = t.numsent ∨ s.NoLines

theorem ackLines_numsent (n : Nat) (s : Server K Unit) :
    (ackLines n s).numsent = s.numsent - n := by
  induction n generalizing s with
  | zero => rfl
  | succ n ih =>
    rw [Server.ackLines, ih, ackLine_numsent]
    omega

theorem NoLines.ackLine (h : s.NoLines) : s.ackLine = { s with numsent := s.numsent - 1 } := by
  have hshift : s.lines.shift = s.lines := by
    rw [h.lines_eq]
    exact Slots.ext (by simp [Slots.shift, Slots.empty, ← List.replicate_succ'])
  simp only [Server.ackLine]
  split
  · next b hb => exact absurd (List.mem_of_head? hb) (h b)
  · rw [hshift]

theorem NoLines.ackLines (n : Nat) (h : s.NoLines) :
    Server.ackLines n s = { s with numsent := s.numsent - n } := by
  induction n generalizing s with
  | zero => rfl
  | succ n ih =>
    have hnext : s.ackLine.NoLines := by
      rw [h.ackLine]
      exact h
    rw [Server.ackLines, ih hnext, h.ackLine, Nat.sub_sub, Nat.add_comm]

theorem SameSent.acked (h : SameSent s t) : SameSent s.acked t.acked := by
  have hlog (texts texts' : List (List UInt8)) : SameLines (s.log (.acked texts))
      (t.log (.acked texts')) := h.lines.log rfl rfl
  rcases h.numsent with hn | hn
  · simp only [Server.acked, ← hn]
    refine ⟨(hlog _ _).ackLines _, .inl ?_⟩
    simp only [ackLines_numsent, Server.log, hn]
  · have hs : (s.log (.acked (s.texts (s.lines.val.take s.numsent)))).NoLines := hn
    have ht : (t.log (.acked (t.texts (t.lines.val.take t.numsent)))).NoLines :=
      h.lines.noLines hn
    have hl := hlog (s.texts (s.lines.val.take s.numsent)) (t.texts (t.lines.val.take t.numsent))
    simp only [Server.acked, hs.ackLines, ht.ackLines]
    exact ⟨⟨hl.count, hl.lines, hl.text, hl.commands, hl.freed⟩, .inr hn⟩

/-! ### Input -/

section Shell

variable {sh : Shell Unit}

theorem SameLines.shellInput (sh : Shell Unit) (h : SameLines s t)
    (hbuf : cstr (s.buf.read 0 K.linelen) = cstr (t.buf.read 0 K.linelen)) :
    SameLines (s.shellInput sh) (t.shellInput sh) := by
  have hlog : SameLines (s.log (.shellInput (s.buf.read 0 K.linelen) s.linemem.numFree))
      (t.log (.shellInput (t.buf.read 0 K.linelen) t.linemem.numFree)) :=
    h.log (congrArg some hbuf) rfl
  have ht : LineSteps True _ _ _ := shellCalls_steps
    (t.log (.shellInput (t.buf.read 0 K.linelen) t.linemem.numFree))
    (show .quit ∈ (sh.input (cstr (t.buf.read 0 K.linelen)) ()).1 → True from fun _ => trivial)
  rw [← hbuf] at ht
  simp only [Server.shellInput, ← hbuf]
  exact hlog.lineSteps (shellCalls_steps _ fun _ => trivial) ht

end Shell

/-- The lines and the parser agree. -/
structure Agree (s t : Server K Unit) : Prop extends SameLines s t, SamePending s t

theorem cstr_endLine {buf buf' : Mem} {n : Nat} (h : ∀ i ≤ n, buf i = buf' i)
    (hn : n < K.linelen) :
    cstr ((endLine K buf n).read 0 K.linelen) = cstr ((endLine K buf' n).read 0 K.linelen) := by
  have h4 := K.four_le_linelen
  rcases n.eq_zero_or_pos with rfl | hpos
  · have hone (buf : Mem) : endLine K buf 0 0 = buf 0 ∧ endLine K buf 0 1 = 0 := by
      simp [endLine, Mem.write, show 1 < K.linelen by omega]
    refine cstr_read_congr (k := 1) (fun i hi => ?_) (hone buf).2 (by omega)
    rcases Nat.le_one_iff_eq_zero_or_eq_one.mp hi with rfl | rfl
    · rw [(hone buf).1, (hone buf').1, h 0 le_rfl]
    · rw [(hone buf).2, (hone buf').2]
  · refine cstr_read_congr (k := n) (fun i hi => ?_) (endLine_apply_self hpos) hn
    rcases Nat.lt_or_eq_of_le hi with hlt | rfl
    · rw [endLine_apply_of_lt hlt, endLine_apply_of_lt hlt, h i hi]
    · rw [endLine_apply_self hpos, endLine_apply_self hpos]

section QuietShell

variable {sh : QuietShell Unit}

theorem Agree.getChar (h : Agree s t) (hlt : s.bufptr < K.linelen) (c : UInt8) :
    Agree (s.getChar sh.toShell c) (t.getChar sh.toShell c) := by
  have hbuf : ∀ i ≤ s.bufptr, s.buf.write s.bufptr [c] i = t.buf.write s.bufptr [c] i := by
    intro i hi
    rcases Nat.lt_or_eq_of_le hi with hlt | rfl
    · rw [Mem.write_apply_of_lt hlt, Mem.write_apply_of_lt hlt, h.buf i hlt]
    · simp [Mem.write]
  simp only [getChar_eq, ← h.bufptr]
  split
  · exact h
  split
  · have hs : SameLines { s with buf := endLine K (s.buf.write s.bufptr [c]) s.bufptr }
        { t with
          buf := endLine K (t.buf.write s.bufptr [c]) s.bufptr
          bufptr := s.bufptr } :=
      ⟨h.count, h.lines, h.text, h.commands, h.freed⟩
    have hcall := hs.shellInput sh.toShell (cstr_endLine hbuf hlt)
    refine ⟨⟨hcall.count, hcall.lines, hcall.text, hcall.commands, hcall.freed⟩, rfl, ?_, (by simp)⟩
    simp only [(shellInput_quiet_state sh _).2.1, h.state]
  · exact ⟨⟨h.count, h.lines, h.text, h.commands, h.freed⟩, rfl, h.state,
      fun i hi => hbuf i (Nat.lt_succ_iff.mp hi)⟩

theorem Agree.sendopt (h : Agree s t) (option value : UInt8) :
    Agree (s.sendopt option value) (t.sendopt option value) := by
  have hs := sendopt_step (Q := False) option value s
  have ht := sendopt_step (Q := False) option value t
  exact ⟨h.toSameLines.lineStep hs ht, h.toSamePending.of_sameParser hs.sameParser ht.sameParser⟩

theorem Agree.newChar (h : Agree s t) (hlt : s.bufptr < K.linelen) (c : UInt8) :
    Agree (s.newChar sh.toShell c) (t.newChar sh.toShell c) := by
  have set {s t : Server K Unit} (h : Agree s t) (state : TelnetState) :
      Agree { s with state } { t with state } :=
    ⟨⟨h.count, h.lines, h.text, h.commands, h.freed⟩, h.bufptr, rfl, h.buf⟩
  simp only [Server.newChar, ← h.state]
  split
  · split
    · exact set (h.getChar hlt c) .normal
    · repeat' split
      all_goals exact set h _
  · exact set (h.sendopt 254 c) .normal
  · exact set (h.sendopt 254 c) .normal
  · exact set (h.sendopt 252 c) .normal
  · exact set (h.sendopt 252 c) .normal
  · split
    · exact set h .iac
    · exact h.getChar hlt c
  · exact h

theorem Agree.newdata (sh : QuietShell Unit) (h : Agree s t) (data : List UInt8) :
    Agree (s.newdata sh.toShell data).1 (t.newdata sh.toShell data).1 := by
  induction data generalizing s t with
  | nil => exact h
  | cons c cs ih =>
    simp only [Server.newdata, ← h.bufptr]
    split
    · next hlt => exact ih (h.newChar hlt c)
    · exact h

/-- A new connection starts without lines and at the start of a line. -/
theorem connected_agree (sh : QuietShell Unit) (hcount : s.linemem.count = t.linemem.count)
    (htrace : s.trace = t.trace) :
    Agree (s.connected sh.toShell) (t.connected sh.toShell) := by
  have hs := s.connected_steps (Q := False) sh.start_quiet
  have ht := t.connected_steps (Q := False) sh.start_quiet
  have h0 : SameLines { s with lines := .empty, bufptr := 0, state := .normal }
      { t with lines := .empty, bufptr := 0, state := .normal } :=
    ⟨hcount, rfl, fun b hb => by simp [Slots.empty] at hb,
      by simp only [Server.commands, inputs, htrace], by simp only [freedLines, htrace]⟩
  have hp : SamePending { s with lines := .empty, bufptr := 0, state := .normal }
      { t with lines := .empty, bufptr := 0, state := .normal } :=
    ⟨rfl, rfl, fun i hi => absurd hi i.not_lt_zero⟩
  exact ⟨h0.lineSteps hs ht, hp.of_sameParser hs.sameParser ht.sameParser⟩

/-- A call on servers that agree.  The parser has to agree if the call has data, and the number of
lines in the last segment if the call does not fill a new one first. -/
theorem SameLines.handle (sh : QuietShell Unit) (call : Call) (h : SameLines s t)
    (hpending : call.newdata → SamePending s t)
    (hsent : call.acked ∨ ¬call.Sends → s.numsent = t.numsent ∨ s.NoLines) :
    SameSent (s.handle sh.toShell call).1 (t.handle sh.toShell call).1 ∧
      (s.handle sh.toShell call).2 = (t.handle sh.toShell call).2 ∧
      (SamePending s t →
        SamePending (s.handle sh.toShell call).1 (t.handle sh.toShell call).1) := by
  simp only [Server.handle]
  set s1 := if call.Closing then s.closed else s with hs1
  set t1 := if call.Closing then t.closed else t with ht1
  have h1 : SameLines s1 t1 ∧ (SamePending s t → SamePending s1 t1) ∧
      (call.acked ∨ ¬call.Sends → s1.numsent = t1.numsent ∨ s1.NoLines) := by
    rw [hs1, ht1]
    split
    · refine ⟨h.closed, fun hp => hp.of_sameParser s.closed_sameParser t.closed_sameParser, ?_⟩
      simpa only [closed_numsent, NoLines, closed_lines] using hsent
    · exact ⟨h, id, hsent⟩
  obtain ⟨h1, hp1, hn1⟩ := h1
  set s2 := if call.acked then s1.acked else s1 with hs2
  set t2 := if call.acked then t1.acked else t1 with ht2
  have h2 : SameLines s2 t2 ∧ (SamePending s t → SamePending s2 t2) := by
    rw [hs2, ht2]
    split
    · next hacked =>
      exact ⟨(SameSent.acked ⟨h1, hn1 (.inl hacked)⟩).lines, fun hp =>
        (hp1 hp).of_sameParser s1.acked_sameParser t1.acked_sameParser⟩
    · exact ⟨h1, hp1⟩
  obtain ⟨h2, hp2⟩ := h2
  set s3 := if call.newdata then (s2.newdata sh.toShell call.data).1 else s2 with hs3
  set t3 := if call.newdata then (t2.newdata sh.toShell call.data).1 else t2 with ht3
  have h3 : SameLines s3 t3 ∧ (SamePending s t → SamePending s3 t3) := by
    rw [hs3, ht3]
    split
    · next hnew =>
      have hagree := (Agree.mk h2 (hp2 (hpending hnew))).newdata sh call.data
      exact ⟨hagree.toSameLines, fun _ => hagree.toSamePending⟩
    · exact ⟨h2, hp2⟩
  obtain ⟨h3, hp3⟩ := h3
  by_cases hsends : call.Sends
  · obtain ⟨hl, hn, hb⟩ := h3.senddata call.mss
    simp only [hsends, ↓reduceIte, hb, true_and]
    exact ⟨⟨hl, .inl hn⟩, fun hp => ⟨(hp3 hp).bufptr, (hp3 hp).state, (hp3 hp).buf⟩⟩
  · have hacked : call.acked = false := by
      by_contra hc
      exact hsends (by simp [Call.Sends, hc])
    have hnew : call.newdata = false := by
      by_contra hc
      exact hsends (by simp [Call.Sends, hc])
    have hs31 : s3 = s1 := by simp [hs3, hs2, hacked, hnew]
    have ht31 : t3 = t1 := by simp [ht3, ht2, hacked, hnew]
    simp only [hsends, ↓reduceIte, true_and]
    exact ⟨⟨h3, hs31 ▸ ht31 ▸ hn1 (.inr hsends)⟩, hp3⟩

end QuietShell

theorem SameSent.clearTrace (h : SameSent s t) : SameSent s.clearTrace t.clearTrace :=
  ⟨⟨h.lines.count, h.lines.lines, h.lines.text, rfl, rfl⟩, h.numsent⟩

end Server

end OpenPLC
