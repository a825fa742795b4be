import Mathlib.Logic.Relation
import OpenPLC.Apps.Server

/-! What the line server can do to its lines.  `connected` and `newdata` work by a few kinds of
steps, and an invariant of the server follows from what one step does to it. -/

namespace OpenPLC

open Lib

theorem Conf.linelen_pos (K : Conf) : 0 < K.linelen :=
  Nat.lt_of_lt_of_le (by decide) K.four_le_linelen

/-- The text of the line that a call of the shell queues. -/
def ShellCall.text (K : Conf) : ShellCall → Option (List UInt8)
  | .prompt str => some ((cstr str).take K.linelen)
  | .output str1 str2 =>
    let text := (cstr str1 ++ cstr str2).take K.linelen
    some (if text.length < K.linelen - 2 then text ++ [13, 10] else text)
  | .quit => none

namespace Server

variable {K : Conf} {σ : Type*} {Q : Prop}

/-- A call that the shell makes, or the reply to a telnet option, with the text of its line.  `Q`
holds if the shell may call `shell_quit`. -/
inductive LineStep (Q : Prop) (s : Server K σ) : Option (List UInt8) → Server K σ → Prop
  /-- The shell calls `shell_quit`. -/
  | quit (h : Q) : LineStep Q s none s.shellQuit
  /-- A line is lost, for no block is free. -/
  | drop {text : List UInt8} (h : s.linemem.alloc = none) :
    LineStep Q s (some text) (s.log .dropped)
  /-- A line is allocated, written, and sent. -/
  | put (line : Fin K.numlines) (m : Memb K.linelen K.numlines)
    (h : ∃ m₀, s.linemem.alloc = some (line, m₀))
    (hcount : m.count = Function.update s.linemem.count line 1)
    (hmem : ∀ b ≠ line, m.mem b = s.linemem.mem b) :
    LineStep Q s (some (m.mem line).text) ({ s with linemem := m }.sendline line)

/-- A step of the server while it reads input. -/
inductive Step (Q : Prop) (s : Server K σ) : Server K σ → Prop
  | line {text : Option (List UInt8)} {t : Server K σ} (h : LineStep Q s text t) : Step Q s t
  /-- The fields of the parser and the shell change. -/
  | parse (buf : Mem) (bufptr : Nat) (state : TelnetState) (shell : σ)
    (hstate : state = .close → s.state = .close) : Step Q s { s with buf, bufptr, state, shell }
  /-- The shell is called. -/
  | input (buf : List UInt8) : Step Q s (s.log (.shellInput buf s.linemem.numFree))

/-- Line steps one after the other, with their texts. -/
inductive LineSteps (Q : Prop) :
    Server K σ → List (Option (List UInt8)) → Server K σ → Prop
  | refl (s : Server K σ) : LineSteps Q s [] s
  | head {text : Option (List UInt8)} {texts : List (Option (List UInt8))} {s t u : Server K σ}
    (h : LineStep Q s text t) (ht : LineSteps Q t texts u) : LineSteps Q s (text :: texts) u

/-- Steps one after the other. -/
abbrev Steps (Q : Prop) : Server K σ → Server K σ → Prop := Relation.ReflTransGen (Step Q)

theorem LineSteps.steps {s t : Server K σ} {texts : List (Option (List UInt8))}
    (h : LineSteps Q s texts t) : Steps Q s t := by
  induction h with
  | refl => exact .refl
  | head h _ ih => exact .head (.line h) ih

/-- What a store in one line leaves unchanged. -/
structure Stores (line : Fin K.numlines) (s t : Server K σ) : Prop where
  eq : t = { s with linemem := t.linemem }
  count : t.linemem.count = s.linemem.count
  mem : ∀ b ≠ line, t.linemem.mem b = s.linemem.mem b

theorem stores_storeLine (s : Server K σ) (line : Fin K.numlines) (i : Nat) (bs : List UInt8) :
    Stores line s (s.storeLine line i bs) :=
  ⟨rfl, rfl, fun _ hb => Function.update_of_ne hb ..⟩

theorem Stores.trans {line : Fin K.numlines} {s t u : Server K σ} (h : Stores line s t)
    (h' : Stores line t u) : Stores line s u where
  eq := by rw [h'.eq, h.eq]
  count := h'.count.trans h.count
  mem b hb := (h'.mem b hb).trans (h.mem b hb)

theorem mem_storeLine (s : Server K σ) (line : Fin K.numlines) (i : Nat) (bs : List UInt8) :
    (s.storeLine line i bs).linemem.mem line = (s.linemem.mem line).store i bs :=
  Function.update_self ..

theorem step_of_alloc {s s' t : Server K σ} {line : Fin K.numlines} {text : List UInt8}
    (h : s.allocLine = some (line, s')) (ht : Stores line s' t) (htext : t.text line = text) :
    LineStep Q s (some text) (t.sendline line) := by
  simp only [allocLine] at h
  split at h
  · next b m hm =>
    obtain ⟨-, hm'⟩ := Memb.alloc_eq_some hm
    simp only [Option.some.injEq, Prod.mk.injEq] at h
    obtain ⟨rfl, rfl⟩ := h
    rw [ht.eq, ← htext]
    exact .put b t.linemem ⟨m, hm⟩ (by rw [ht.count, hm']) fun c hc => by rw [ht.mem c hc, hm']
  · cases h

theorem alloc_eq_none {s : Server K σ} (h : s.allocLine = none) : s.linemem.alloc = none := by
  simp only [allocLine] at h
  split at h
  · cases h
  · assumption

theorem shellPrompt_step (str : List UInt8) (s : Server K σ) :
    LineStep Q s ((ShellCall.prompt str).text K) (s.shellPrompt str) := by
  simp only [shellPrompt]
  split
  · next h =>
    refine step_of_alloc h (stores_storeLine ..) ?_
    rw [text, mem_storeLine, Block.text_store_strncpy]
  · next h => exact .drop (alloc_eq_none h)

theorem storeOutput_text (str1 str2 : List UInt8) (line : Fin K.numlines) (s : Server K σ) :
    (s.storeOutput str1 str2 line).text line = (cstr str1 ++ cstr str2).take K.linelen := by
  simp only [storeOutput]
  split
  · next h =>
    rw [text, mem_storeLine, mem_storeLine, Block.text_store_strncpy_append _ _ h]
  · next h =>
    rw [text, mem_storeLine, Block.text_store_strncpy,
      List.take_append_of_le_length (Nat.le_of_not_lt h)]

theorem stores_storeOutput (str1 str2 : List UInt8) (line : Fin K.numlines) (s : Server K σ) :
    Stores line s (s.storeOutput str1 str2 line) := by
  simp only [storeOutput]
  split
  · exact (stores_storeLine ..).trans (stores_storeLine ..)
  · exact stores_storeLine ..

/-- The line of `shell_output` once it is ended, if there is room. -/
theorem endOutput_text (str1 str2 : List UInt8) (line : Fin K.numlines) (s : Server K σ) :
    let s₁ := s.storeOutput str1 str2 line
    let len := s₁.linemem.strlen line
    let s₂ := if len < K.linelen - 2 then s₁.storeLine line len [13, 10, 0] else s₁
    Stores line s s₂ ∧ (ShellCall.output str1 str2).text K = some (s₂.text line) := by
  intro s₁ len s₂
  have hout : Stores line s s₁ := stores_storeOutput str1 str2 line s
  have htext : (s₁.linemem.mem line).text = (cstr str1 ++ cstr str2).take K.linelen :=
    s.storeOutput_text str1 str2 line
  have hlen : min len K.linelen = ((cstr str1 ++ cstr str2).take K.linelen).length :=
    (s₁.linemem.min_strlen line).trans (congrArg List.length htext)
  simp only [ShellCall.text, s₂]
  by_cases hlt : len < K.linelen - 2
  · have hstr : len = (s₁.linemem.mem line).text.length := by
      rw [htext]
      omega
    rw [if_pos hlt, if_pos (by omega)]
    refine ⟨hout.trans (stores_storeLine ..), congrArg some ?_⟩
    rw [text, mem_storeLine, hstr, ← htext]
    exact (Block.text_store_length _ (show 0 ∉ [13, 10] by decide) (by simp; omega)).symm
  · rw [if_neg hlt, if_neg (by omega)]
    exact ⟨hout, congrArg some htext.symm⟩

theorem shellOutput_step (str1 str2 : List UInt8) (s : Server K σ) :
    LineStep Q s ((ShellCall.output str1 str2).text K) (s.shellOutput str1 str2) := by
  simp only [shellOutput]
  split
  · next line s' h =>
    obtain ⟨hout, htext⟩ := endOutput_text str1 str2 line s'
    rw [htext]
    exact step_of_alloc h hout rfl
  · next h => exact .drop (alloc_eq_none h)

theorem sendopt_step (option value : UInt8) (s : Server K σ) :
    LineStep Q s (some (cstr [255, option, value])) (s.sendopt option value) := by
  simp only [sendopt]
  split
  · next line s' h =>
    refine step_of_alloc h (stores_storeLine ..) ?_
    rw [text, mem_storeLine, Block.text,
      Block.bytes_store (by simpa using K.four_le_linelen), List.take_zero, List.nil_append]
    exact cstr_append_zero [255, option, value] _
  · next h => exact .drop (alloc_eq_none h)

theorem shellCall_step (s : Server K σ) {c : ShellCall} (h : c = .quit → Q) :
    LineStep Q s (c.text K) (s.shellCall c) := by
  cases c with
  | prompt str => exact shellPrompt_step str s
  | output str1 str2 => exact shellOutput_step str1 str2 s
  | quit => exact .quit (h rfl)

theorem shellCalls_steps (s : Server K σ) {cs : List ShellCall} (h : .quit ∈ cs → Q) :
    LineSteps Q s (cs.map (ShellCall.text K)) (s.shellCalls cs) := by
  induction cs generalizing s with
  | nil => exact .refl s
  | cons c cs ih =>
    exact .head (shellCall_step s fun hc => h (hc ▸ List.mem_cons_self))
      (ih (s.shellCall c) fun hc => h (List.mem_cons_of_mem c hc))

/-- The buffer with the NULs that `get_char` stores at the end of a line. -/
def endLine (K : Conf) (buf : Mem) (n : Nat) : Mem :=
  let buf := if 0 < n then buf.write n [0] else buf
  if n + 1 < K.linelen then buf.write (n + 1) [0] else buf

theorem endLine_apply_of_lt {buf : Mem} {i n : Nat} (h : i < n) :
    endLine K buf n i = buf i := by
  simp only [endLine]
  split <;> split <;> simp [Mem.write, show ¬n ≤ i by omega, show ¬n + 1 ≤ i by omega]

theorem endLine_apply_self {buf : Mem} {n : Nat} (h : 0 < n) : endLine K buf n n = 0 := by
  simp only [endLine, h, ↓reduceIte]
  split <;> simp [Mem.write]

/-- `get_char` drops a CR, ends a line and calls the shell, or goes on with the line. -/
theorem getChar_eq (sh : Shell σ) (c : UInt8) (s : Server K σ) :
    s.getChar sh c =
      if c = 13 then s
      else if c = 10 ∨ s.bufptr = K.linelen - 1 then
        { ({ s with buf := endLine K (s.buf.write s.bufptr [c]) s.bufptr } : Server K σ).shellInput
            sh with bufptr := 0 }
      else { s with buf := s.buf.write s.bufptr [c], bufptr := s.bufptr + 1 } := by
  simp only [getChar, endLine]
  by_cases h0 : 0 < s.bufptr <;> by_cases h1 : s.bufptr + 1 < K.linelen <;> simp [h0, h1]

/-- A byte of the stream changes the telnet state, queues a reply to an option, or is text, in
state `STATE_IAC` with the state assigned after it. -/
theorem newChar_cases (sh : Shell σ) (c : UInt8) (s : Server K σ) :
    (∃ state, (state = .close → s.state = .close) ∧ s.newChar sh c = { s with state }) ∨
      (∃ option, s.newChar sh c = { s.sendopt option c with state := .normal }) ∨
      s.state = .iac ∧ s.newChar sh c = { s.getChar sh c with state := .normal } ∨
      s.state = .normal ∧ s.newChar sh c = s.getChar sh c := by
  simp only [newChar]
  split
  · next hstate =>
    split_ifs
    · exact .inr (.inr (.inl ⟨hstate, rfl⟩))
    all_goals exact .inl ⟨_, by simp, rfl⟩
  · exact .inr (.inl ⟨254, rfl⟩)
  · exact .inr (.inl ⟨254, rfl⟩)
  · exact .inr (.inl ⟨252, rfl⟩)
  · exact .inr (.inl ⟨252, rfl⟩)
  · next hstate =>
    split_ifs
    · exact .inl ⟨.iac, by simp, rfl⟩
    · exact .inr (.inr (.inr ⟨hstate, rfl⟩))
  · exact .inl ⟨s.state, id, rfl⟩
section Shell

variable {sh : Shell σ} (hQ : ∀ cmd st, .quit ∈ (sh.input cmd st).1 → Q)

include hQ

theorem shellInput_steps (s : Server K σ) : Steps Q s (s.shellInput sh) := by
  refine .head (.parse s.buf s.bufptr s.state (sh.input (cstr (s.buf.read 0 K.linelen)) s.shell).2
    id) ?_
  exact .head (.input (s.buf.read 0 K.linelen)) (shellCalls_steps _ (hQ _ _)).steps

theorem getChar_steps (c : UInt8) (s : Server K σ) : Steps Q s (s.getChar sh c) := by
  rw [getChar_eq]
  split
  · exact .refl
  split
  · exact .head (.parse _ s.bufptr s.state s.shell id)
      (.tail (shellInput_steps hQ _) (.parse _ 0 _ _ id))
  · exact .single (.parse _ _ _ _ id)

theorem newChar_steps (c : UInt8) (s : Server K σ) : Steps Q s (s.newChar sh c) := by
  have normal (s : Server K σ) : Step Q s { s with state := .normal } :=
    .parse s.buf s.bufptr .normal s.shell (by simp)
  rcases s.newChar_cases sh c with ⟨state, hclose, h⟩ | ⟨option, h⟩ | ⟨-, h⟩ | ⟨-, h⟩
  · rw [h]
    exact .single (.parse s.buf s.bufptr state s.shell hclose)
  · rw [h]
    exact .tail (.single (.line (sendopt_step option c s))) (normal _)
  · rw [h]
    exact .tail (getChar_steps hQ c s) (normal _)
  · rw [h]
    exact getChar_steps hQ c s

variable (sh) in
theorem newdata_steps (data : List UInt8) (s : Server K σ) : Steps Q s (s.newdata sh data).1 := by
  induction data generalizing s with
  | nil => exact .refl
  | cons c cs ih =>
    simp only [newdata]
    split
    · exact (newChar_steps hQ c s).trans (ih _)
    · exact .refl

end Shell

theorem connected_steps {sh : Shell σ} (s : Server K σ) (h : .quit ∈ sh.start → Q) :
    LineSteps Q { s with lines := .empty, bufptr := 0, state := .normal }
      (sh.start.map (ShellCall.text K)) (s.connected sh) :=
  shellCalls_steps _ h

/-- What a line step leaves unchanged. -/
structure SameParser (Q : Prop) (s t : Server K σ) : Prop where
  buf : t.buf = s.buf
  bufptr : t.bufptr = s.bufptr
  shell : t.shell = s.shell
  state : t.state = s.state ∨ Q ∧ t.state = .close
  inputs : t.inputs = s.inputs

theorem SameParser.refl (Q : Prop) (s : Server K σ) : SameParser Q s s :=
  ⟨rfl, rfl, rfl, .inl rfl, rfl⟩

theorem SameParser.trans {s t u : Server K σ} (h : SameParser Q s t) (h' : SameParser Q t u) :
    SameParser Q s u where
  buf := h'.buf.trans h.buf
  bufptr := h'.bufptr.trans h.bufptr
  shell := h'.shell.trans h.shell
  state := by
    rcases h'.state with hs | hs
    · rw [hs]
      exact h.state
    · exact .inr hs
  inputs := h'.inputs.trans h.inputs

@[simp] theorem deallocLine_inputs (s : Server K σ) (line : Fin K.numlines) :
    (s.deallocLine line).inputs = s.inputs := by
  simp only [inputs, deallocLine]
  split <;> simp [Obs.input?]

theorem LineStep.sameParser {s t : Server K σ} {text : Option (List UInt8)}
    (h : LineStep Q s text t) : SameParser Q s t := by
  cases h with
  | quit h => exact ⟨rfl, rfl, rfl, .inr ⟨h, rfl⟩, rfl⟩
  | drop => exact ⟨rfl, rfl, rfl, .inl rfl, by simp [inputs, log, Obs.input?]⟩
  | put =>
    simp only [sendline]
    split
    · exact ⟨rfl, rfl, rfl, .inl rfl, by simp [inputs, log, Obs.input?]⟩
    · exact ⟨rfl, rfl, rfl, .inl rfl,
        (deallocLine_inputs ..).trans (by simp [inputs, log, Obs.input?])⟩

theorem LineSteps.sameParser {s t : Server K σ} {texts : List (Option (List UInt8))}
    (h : LineSteps Q s texts t) : SameParser Q s t := by
  induction h with
  | refl => exact .refl Q _
  | head h _ ih => exact h.sameParser.trans ih

/-- Only `shell_quit` asks for the close. -/
theorem Step.state_ne_close {s t : Server K σ} (h : Step False s t) (hs : s.state ≠ .close) :
    t.state ≠ .close := by
  cases h with
  | line h => rwa [h.sameParser.state.resolve_right (·.1)]
  | parse _ _ _ _ hstate => exact fun h => hs (hstate h)
  | input => exact hs

theorem Steps.state_ne_close {s t : Server K σ} (h : Steps False s t) (hs : s.state ≠ .close) :
    t.state ≠ .close := by
  induction h with
  | refl => exact hs
  | tail _ hstep ih => exact hstep.state_ne_close ih

theorem shellInput_inputs (sh : Shell σ) (s : Server K σ) :
    (s.shellInput sh).inputs = s.inputs ++ [s.buf.read 0 K.linelen] := by
  refine (shellCalls_steps (Q := True) _ fun _ => trivial).sameParser.inputs.trans ?_
  simp [inputs, log, Obs.input?]

/-- The shell is called with the buffer, and keeps the parser as it is. -/
theorem shellInput_quiet_state (sh : QuietShell σ) (s : Server K σ) :
    (s.shellInput sh.toShell).buf = s.buf ∧ (s.shellInput sh.toShell).state = s.state ∧
      (s.shellInput sh.toShell).inputs = s.inputs ++ [s.buf.read 0 K.linelen] := by
  have h := (shellCalls_steps (Q := False)
    ({ s with shell := (sh.input (cstr (s.buf.read 0 K.linelen)) s.shell).2 }.log
      (.shellInput (s.buf.read 0 K.linelen) s.linemem.numFree))
      (sh.input_quiet (cstr (s.buf.read 0 K.linelen)) s.shell)).sameParser
  exact ⟨h.buf, h.state.resolve_right (·.1), s.shellInput_inputs sh.toShell⟩

theorem deallocLine_sameParser (s : Server K σ) (line : Fin K.numlines) :
    SameParser False s (s.deallocLine line) :=
  ⟨rfl, rfl, rfl, .inl rfl, deallocLine_inputs ..⟩

theorem ackLine_sameParser (s : Server K σ) : SameParser False s s.ackLine := by
  simp only [ackLine]
  split
  · exact ⟨rfl, rfl, rfl, .inl rfl, deallocLine_inputs ..⟩
  · exact ⟨rfl, rfl, rfl, .inl rfl, rfl⟩

theorem ackLines_sameParser (n : Nat) (s : Server K σ) : SameParser False s (ackLines n s) := by
  induction n generalizing s with
  | zero => exact .refl False s
  | succ n ih => exact s.ackLine_sameParser.trans (ih s.ackLine)

theorem acked_sameParser (s : Server K σ) : SameParser False s s.acked := by
  have hlog : SameParser False s (s.log (.acked (s.texts (s.lines.val.take s.numsent)))) :=
    ⟨rfl, rfl, rfl, .inl rfl, by simp [inputs, log, Obs.input?]⟩
  exact hlog.trans (ackLines_sameParser ..)

theorem acked_state (s : Server K σ) : s.acked.state = s.state :=
  s.acked_sameParser.state.resolve_right (·.1)

theorem closed_sameParser (s : Server K σ) : SameParser False s s.closed := by
  simp only [closed]
  generalize s.lines.val.filterMap id = ls
  induction ls generalizing s with
  | nil => exact .refl False s
  | cons l ls ih => exact (s.deallocLine_sameParser l).trans (ih (s.deallocLine l))

theorem closed_state (s : Server K σ) : s.closed.state = s.state :=
  s.closed_sameParser.state.resolve_right (·.1)

theorem handle_eq (sh : Shell σ) (call : Call) (s : Server K σ) :
    (s.handle sh call).1 =
      let s := if call.Closing then s.closed else s
      let s := if call.acked then s.acked else s
      let s := if call.newdata then (s.newdata sh call.data).1 else s
      if call.Sends then (s.senddata call.mss).1 else s := by
  simp only [handle]
  split <;> rfl

theorem handle_sameParser (sh : Shell σ) {call : Call} (h : call.newdata = false)
    (s : Server K σ) : SameParser False s (s.handle sh call).1 := by
  have h1 : SameParser False s (if call.Closing then s.closed else s) := by
    split
    · exact s.closed_sameParser
    · exact .refl False s
  rw [handle_eq]
  simp only [h, Bool.false_eq_true, ↓reduceIte]
  refine h1.trans ?_
  generalize (if call.Closing then s.closed else s) = s1
  have h2 : SameParser False s1 (if call.acked then s1.acked else s1) := by
    split
    · exact s1.acked_sameParser
    · exact .refl False s1
  split
  · exact h2.trans ⟨rfl, rfl, rfl, .inl rfl, rfl⟩
  · exact h2

/-- The server when a call comes to the data. -/
def beforeData (sh : Shell σ) (call : Call) (s : Server K σ) : Server K σ :=
  let s := if call.connected then s.connected sh else s
  let s := if call.Closing then s.closed else s
  if call.acked then s.acked else s

theorem beforeData_sameParser (sh : Shell σ) (call : Call) (s : Server K σ) :
    SameParser False (if call.connected then s.connected sh else s) (s.beforeData sh call) := by
  simp only [beforeData]
  generalize (if call.connected then s.connected sh else s) = s1
  have hclosed : SameParser False s1 (if call.Closing then s1.closed else s1) := by
    split
    · exact s1.closed_sameParser
    · exact .refl False s1
  refine hclosed.trans ?_
  generalize (if call.Closing then s1.closed else s1) = s2
  split
  · exact s2.acked_sameParser
  · exact .refl False s2

/-- A call without a pending close goes on to the data, and sends. -/
theorem appcall_eq {sh : Shell σ} {call : Call} {s : Server K σ}
    (hs : (s.beforeData sh call).state ≠ .close) :
    (s.appcall sh call).1 =
      let s := if call.newdata then ((s.beforeData sh call).newdata sh call.data).1
        else s.beforeData sh call
      if call.Sends then (s.senddata call.mss).1 else s := by
  have hstart : (if call.connected then s.connected sh else s).state ≠ .close := by
    rwa [(beforeData_sameParser sh call s).state.resolve_right (·.1)] at hs
  simp only [appcall, hstart, ↓reduceIte, handle_eq]
  rfl

theorem handle_state_ne_close {sh : Shell σ} (hQ : ∀ cmd st, .quit ∉ (sh.input cmd st).1)
    {call : Call} {s : Server K σ} (hs : s.state ≠ .close) :
    (s.handle sh call).1.state ≠ .close := by
  have h1 : (if call.Closing then s.closed else s).state ≠ .close := by
    split
    · rwa [closed_state]
    · exact hs
  rw [handle_eq]
  dsimp only
  generalize (if call.Closing then s.closed else s) = s1 at h1 ⊢
  have h2 : (if call.acked then s1.acked else s1).state ≠ .close := by
    split
    · rwa [acked_state]
    · exact h1
  generalize (if call.acked then s1.acked else s1) = s2 at h2 ⊢
  have h3 : (if call.newdata then (s2.newdata sh call.data).1 else s2).state ≠ .close := by
    split
    · exact (newdata_steps (Q := False) sh hQ call.data s2).state_ne_close h2
    · exact h2
  split
  · exact h3
  · exact h3

theorem appcall_of_state {sh : Shell σ} {call : Call} {s : Server K σ}
    (hc : call.connected = false) (hs : s.state ≠ .close) :
    s.appcall sh call = s.handle sh call := by
  simp [appcall, hc, hs]

/-- A pending close is all that a call reports. -/
theorem appcall_of_close {sh : Shell σ} {call : Call} {s : Server K σ}
    (hc : call.connected = false) (hs : s.state = .close) :
    s.appcall sh call = ({ s with state := .normal }, { close := true }) := by
  simp [appcall, hc, hs]

theorem handle_close (sh : Shell σ) (call : Call) (s : Server K σ) :
    (s.handle sh call).2.close = false := by
  simp only [handle]
  split <;> rfl

theorem appcall_state_ne_close {sh : QuietShell σ} {call : Call} {s : Server K σ}
    (hs : s.state ≠ .close) : (s.appcall sh.toShell call).1.state ≠ .close := by
  have h1 : (if call.connected then s.connected sh.toShell else s).state ≠ .close := by
    split
    · exact (s.connected_steps (Q := False) sh.start_quiet).steps.state_ne_close nofun
    · exact hs
  simp only [appcall, h1, ↓reduceIte]
  exact handle_state_ne_close sh.input_quiet h1

end Server

end OpenPLC
