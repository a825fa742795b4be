import OpenPLC.Apps.Decoder
import OpenPLC.Apps.Sessions

/-! The replies of `jsoncmd` in the queue.  The shell queues the lines of a reply one by one, and
loses those for which no block is free.  A reply is in the queue in full, or not at all, if each
command finds room for all lines of its reply or for none. -/

namespace OpenPLC

open Lib

namespace Jsoncmd

/-- The commands of the shell. -/
inductive Kind
  | get | set
deriving DecidableEq

/-- The command of a line: the start of its first quoted token. -/
def kind? (line : List UInt8) : Option Kind :=
  match afterChar line 34 with
  | some cmd =>
    if (ascii "getvalues").isPrefixOf cmd then some .get
    else if (ascii "setvalues").isPrefixOf cmd then some .set
    else none
  | none => none

/-- The lines that some calls of the shell queue. -/
def replyTexts (calls : List ShellCall) : List (List UInt8) := calls.filterMap (ShellCall.text conf)

/-- The complete responses to a command, as the lines in the queue. -/
def Kind.Response : Kind → List (List UInt8) → Prop
  | .get, r => ∃ values, r = replyTexts (valuesReply values)
  | .set, r => r = replyTexts okReply

/-- The number of lines in a response. -/
def Kind.cost : Kind → Nat
  | .get => 17
  | .set => 1

/-- The number of lines in the response to a line. -/
def cost (line : List UInt8) : Nat := ((kind? line).map Kind.cost).getD 1

/-- With `free` blocks, each of some replies of these lengths has room in full or not at all. -/
def Room (free : Nat) : List Nat → Prop
  | [] => True
  | n :: ns => (n ≤ free ∨ free = 0) ∧ Room (free - n) ns

instance decidableRoom : ∀ free ns, Decidable (Room free ns)
  | _, [] => instDecidableTrue
  | free, n :: ns =>
    have := decidableRoom (free - n) ns
    inferInstanceAs (Decidable (_ ∧ _))

/-- A line is answered in full or not at all. -/
def Answer (line : List UInt8) (reply : List (List UInt8)) : Prop :=
  reply = [] ∨ ∃ k, kind? line = some k ∧ k.Response reply

theorem Kind.Response.length {k : Kind} {r : List (List UInt8)} (h : k.Response r) :
    r.length = k.cost := by
  cases k with
  | get =>
    obtain ⟨values, rfl⟩ := h
    rfl
  | set =>
    obtain rfl : r = _ := h
    rfl

theorem strncmpEq_of_isPrefix {s t u : List UInt8} {n : Nat} (hs : s <+: t) (h0 : 0 ∉ s)
    (hn : n ≤ s.length) : strncmpEq t u n = (s.take n == (cstr u).take n) := by
  obtain ⟨r, rfl⟩ := hs
  rw [strncmpEq, cstr_append_of_not_mem h0, List.take_append_of_le_length hn]

/-- The calls of the shell for a well-formed command are those of a complete response. -/
theorem shellInput_response (cb : Callbacks) {line : List UInt8} {k : Kind}
    (h : kind? line = some k)
    (s : ShellState) : k.Response (replyTexts (shellInput cb (cstr line) s).1) := by
  simp only [kind?] at h
  have hcmd : afterChar (cstr line) 34 = afterChar line 34 := by simp [afterChar]
  split at h
  · next cmd hc =>
    simp only [shellInput, hcmd, hc, deref]
    split_ifs at h with hget hset
    · obtain rfl := Option.some.inj h
      rw [strncmpEq_of_isPrefix (List.isPrefixOf_iff_prefix.mp hget) (by decide) (by decide),
        if_pos (by decide)]
      exact ⟨_, rfl⟩
    · obtain rfl := Option.some.inj h
      have hp := List.isPrefixOf_iff_prefix.mp hset
      rw [strncmpEq_of_isPrefix hp (by decide) (by decide), if_neg (by decide),
        strncmpEq_of_isPrefix hp (by decide) (by decide), if_pos (by decide)]
      rfl
  · cases h

variable {cb : Callbacks} {s : Server conf ShellState} {q : List (Fin conf.numlines)} {x : Scan}

theorem cstr_of_passed {line buf : List UInt8} (hline : line ≠ []) (h : passed line <+: buf) :
    cstr buf = cstr line := by
  obtain ⟨rest, rfl⟩ := h
  rw [passed, if_neg hline, List.append_assoc, List.singleton_append, cstr_append_zero]

/-- The shell answers a line as far as there is room. -/
theorem shellInput_answers (cb : Callbacks) {line : List UInt8} {k : Kind} (h : s.Vacant)
    (hk : kind? line = some k) (hbuf : passed line <+: s.buf.read 0 conf.linelen) :
    ∃ reply, k.Response reply ∧ s.Enqueues (s.shellInput (shell cb).toShell) reply := by
  have hne : line ≠ [] := by
    rintro rfl
    cases hk
  have hresp := shellInput_response cb hk s.shell
  have hreplies : s.replies (shell cb).toShell =
      replyTexts (shellInput cb (cstr line) s.shell).1 := by
    rw [← cstr_of_passed hne hbuf]
    rfl
  have hqueues := h.shellInput (shell cb).toShell
  rw [hreplies] at hqueues
  exact ⟨_, hresp, hqueues⟩

/-- The lines queued from `s` to `t` are the replies to some lines, each one in full or missing. -/
def Answers (s t : Server conf ShellState) (lines : List (List UInt8)) : Prop :=
  ∃ replies, List.Forall₂ Answer lines replies ∧
    t.queuedTexts = s.queuedTexts ++ replies.flatten

theorem Answers.trans {s t u : Server conf ShellState} {ls ls' : List (List UInt8)}
    (h : Answers s t ls) (h' : Answers t u ls') : Answers s u (ls ++ ls') := by
  obtain ⟨rs, hall, ht⟩ := h
  obtain ⟨rs', hall', hu⟩ := h'
  exact ⟨rs ++ rs', List.rel_append hall hall', by rw [hu, ht, List.flatten_append,
    List.append_assoc]⟩

theorem newdata_answers {cs rest : List UInt8} (h : s.Vacant) (hd : s.Decodes x)
    (hx : x.state = .normal) (hplain : 255 ∉ cs)
    (hlen : ∀ l ∈ x.lines (cs ++ rest), l.length < conf.linelen)
    (hknown : ∀ l ∈ (x.run cs).2, (kind? l).isSome)
    (hroom : Room s.numEmpty ((x.run cs).2.map cost)) :
    Answers s (s.newdata (shell cb).toShell cs).1 (x.run cs).2 := by
  induction cs generalizing s x with
  | nil => exact ⟨[], .nil, by simp [Server.newdata]⟩
  | cons c cs ih =>
    obtain ⟨hc, hplain⟩ : 255 ≠ c ∧ 255 ∉ cs := by simpa using hplain
    have hstep : x.step c = x.text c := by simp [Scan.step, hx, hc.symm]
    have htext : (x.text c).1.state = .normal := by
      simp only [Scan.text]
      split_ifs <;> exact hx
    have hnew : s.newChar (shell cb).toShell c = s.getChar (shell cb).toShell c := by
      simp [Server.newChar, hd.state, hx, hc.symm]
    rw [List.cons_append, Scan.lines_cons, hstep] at hlen
    have hlen' : ∀ l ∈ (x.text c).1.lines (cs ++ rest), l.length < conf.linelen :=
      fun l hl => hlen l (List.mem_append_right _ hl)
    obtain ⟨l, hl, hpre⟩ := (x.text c).1.exists_lines_eq (cs ++ rest)
    have hlt := hpre.length_le.trans_lt (hlen' l hl)
    have hdec := (hd.newChar (shell cb) (c := c) (by rw [hstep]; exact hlt)).1
    rw [hstep, hnew] at hdec
    simp only [Scan.run, hstep, List.mem_append, List.map_append] at hknown hroom ⊢
    simp only [Server.newdata, hd.bufptr, hd.lt, ↓reduceIte, hnew]
    rcases hd.getChar_cases (shell cb).toShell hlt with
      ⟨buf, hnone, -, hget⟩ | ⟨buf, hsome, hpass, hget⟩
    · rw [hnone] at hroom
      have hv : (s.getChar (shell cb).toShell c).Vacant := by
        rw [hget]
        exact ⟨h.slots, h.free⟩
      have hempty : (s.getChar (shell cb).toShell c).numEmpty = s.numEmpty := by
        rw [hget]
        rfl
      obtain ⟨replies, hall, hq⟩ := ih hv hdec htext hplain hlen' (fun l hl => hknown l (.inr hl))
        (by rw [hempty]; simpa using hroom)
      refine ⟨replies, by simpa [hnone] using hall, hq.trans ?_⟩
      rw [hget]
      rfl
    · obtain ⟨k, hk⟩ := Option.isSome_iff_exists.mp (hknown x.pending (.inl (by simp [hsome])))
      have hcost : cost x.pending = k.cost := by simp [cost, hk]
      simp only [hsome, Option.toList_some, List.map_cons, List.map_nil, List.singleton_append,
        Room, hcost] at hroom
      obtain ⟨reply, hresp, hqueues⟩ :=
        shellInput_answers (s := { s with buf }) cb ⟨h.slots, h.free⟩ hk hpass
      have hv : (s.getChar (shell cb).toShell c).Vacant := by
        rw [hget]
        exact ⟨hqueues.vacant.slots, hqueues.vacant.free⟩
      have hempty : (s.getChar (shell cb).toShell c).numEmpty = s.numEmpty - k.cost := by
        rw [hget, ← hresp.length]
        exact hqueues.numEmpty
      obtain ⟨replies, hall, hq'⟩ := ih hv hdec htext hplain hlen'
        (fun l hl => hknown l (.inr hl)) (by rw [hempty, hsome]; exact hroom.2)
      have hfull : Answer x.pending (reply.take s.numEmpty) := by
        rcases hroom.1 with hle | hzero
        · rw [List.take_of_length_le (hresp.length.trans_le hle)]
          exact .inr ⟨k, hk, hresp⟩
        · rw [hzero]
          exact .inl rfl
      refine ⟨reply.take s.numEmpty :: replies, ?_, ?_⟩
      · rw [hsome] at hall ⊢
        exact .cons hfull hall
      · refine hq'.trans ?_
        rw [hget, List.flatten_cons, ← List.append_assoc]
        exact congrArg (· ++ replies.flatten) hqueues.queuedTexts

/-- The decoder's state at the start of a call. -/
def scanOf (s : Server conf ShellState) (call : Call) : Scan :=
  if call.connected then ⟨.normal, []⟩ else ⟨s.state, s.buf.read 0 s.bufptr⟩

/-- Each command that a call ends finds room for its reply, or no room at all, in the slots that are
empty when the call comes to its data. -/
def HasRoom (sh : Shell ShellState) (s : Server conf ShellState) (call : Call) : Prop :=
  Room (s.beforeData sh call).numEmpty (((scanOf s call).run call.data).2.map cost)

instance (sh : Shell ShellState) (s : Server conf ShellState) (call : Call) :
    Decidable (HasRoom sh s call) := inferInstanceAs (Decidable (Room _ _))

/-- A stream of well-formed commands. -/
structure Commands (stream : List UInt8) : Prop where
  plain : 255 ∉ stream
  length_le : ∀ line ∈ decodeLines stream, line.length ≤ conf.linelen - 1
  known : ∀ line ∈ (decodeLines stream).dropLast, (kind? line).isSome

theorem Scan.run_state {x : Scan} (hx : x.state = .normal) {cs : List UInt8} (h : 255 ∉ cs) :
    (x.run cs).1.state = .normal := by
  induction cs generalizing x with
  | nil => exact hx
  | cons c cs ih =>
    obtain ⟨hc, h⟩ : 255 ≠ c ∧ 255 ∉ cs := by simpa using h
    refine ih ?_ h
    simp only [Scan.step, hx, hc.symm, ↓reduceIte, Scan.text]
    split_ifs
    · exact hx
    · rfl
    · rfl

/-- A call answers the commands that its data ends. -/
theorem call_answers {call : Call} (rest : List UInt8)
    (hv : (s.beforeData (shell cb).toShell call).Vacant)
    (htexts : (s.beforeData (shell cb).toShell call).queuedTexts = s.queuedTexts)
    (hd : (s.beforeData (shell cb).toShell call).Decodes x) (hx : x.state = .normal)
    (hdata : call.newdata = false → call.data = []) (hplain : 255 ∉ call.data)
    (hlen : ∀ l ∈ x.lines (call.data ++ rest), l.length < conf.linelen)
    (hknown : ∀ l ∈ (x.run call.data).2, (kind? l).isSome)
    (hroom : Room (s.beforeData (shell cb).toShell call).numEmpty
      ((x.run call.data).2.map cost)) :
    Answers s (jsoncmdAppcall (shell cb).toShell call s).1 (x.run call.data).2 ∧
      (jsoncmdAppcall (shell cb).toShell call s).1.Decodes (x.run call.data).1 := by
  rw [jsoncmdAppcall, Server.appcall_eq (hd.state ▸ hd.not_close)]
  dsimp only
  generalize s.beforeData (shell cb).toShell call = s₁ at *
  have h₁ : Answers s (if call.newdata then (s₁.newdata (shell cb).toShell call.data).1 else s₁)
        (x.run call.data).2 ∧
      (if call.newdata then (s₁.newdata (shell cb).toShell call.data).1 else s₁).Decodes
        (x.run call.data).1 := by
    cases hc : call.newdata
    · rw [hdata hc]
      exact ⟨⟨[], .nil, by simp [htexts]⟩, hd⟩
    · obtain ⟨replies, hall, hr⟩ := newdata_answers hv hd hx hplain hlen hknown hroom
      exact ⟨⟨replies, hall, htexts ▸ hr⟩, (hd.newdata (shell cb) _ _ hlen).2.1⟩
  generalize (if call.newdata then (s₁.newdata (shell cb).toShell call.data).1 else s₁) = s₂ at h₁ ⊢
  obtain ⟨hans, hd₂⟩ := h₁
  split
  · exact ⟨hans, hd₂.state, hd₂.bufptr, hd₂.buf, hd₂.lt, hd₂.not_close⟩
  · exact ⟨hans, hd₂⟩

variable {t : Server conf ShellState}

/-- A call of an open connection. -/
theorem Open.answers_call (h : Open s t) (hd : t.Decodes x) (hx : x.state = .normal) {call : Call}
    (rest : List UInt8) (hconn : call.connected = false)
    (hdata : call.newdata = false → call.data = []) (hplain : 255 ∉ call.data)
    (hlen : ∀ l ∈ x.lines (call.data ++ rest), l.length < conf.linelen)
    (hknown : ∀ l ∈ (x.run call.data).2, (kind? l).isSome)
    (hroom : HasRoom (shell cb).toShell t call) :
    Answers t (jsoncmdAppcall (shell cb).toShell call t).1 (x.run call.data).2 ∧
      (jsoncmdAppcall (shell cb).toShell call t).1.Decodes (x.run call.data).1 := by
  have hsame := Server.beforeData_sameParser (shell cb).toShell call t
  simp only [hconn, Bool.false_eq_true, ↓reduceIte] at hsame
  have hscan : scanOf t call = x := by
    obtain ⟨state, pending⟩ := x
    simp only [scanOf, hconn, Bool.false_eq_true, ↓reduceIte, hd.bufptr]
    rw [hd.state, hd.buf]
  rw [HasRoom, hscan] at hroom
  refine call_answers rest (h.sound.vacant_beforeData _ hconn) (t.beforeData_queuedTexts _ hconn)
    ⟨?_, ?_, ?_, hd.lt, hd.not_close⟩ hx hdata hplain hlen hknown hroom
  · exact (hsame.state.resolve_right (·.1)).trans hd.state
  · exact hsame.bufptr.trans hd.bufptr
  · rw [hsame.buf]
    exact hd.buf

/-- The first call of a session. -/
theorem Idle.answers_connect (h : Idle s) (data : Option (List UInt8)) (mss : Nat)
    (rest : List UInt8) :
    let x0 : Scan := ⟨.normal, []⟩
    let call := connectCall data mss
    255 ∉ call.data → (∀ l ∈ x0.lines (call.data ++ rest), l.length < conf.linelen) →
    (∀ l ∈ (x0.run call.data).2, (kind? l).isSome) → HasRoom (shell cb).toShell s call →
    Answers s (jsoncmdAppcall (shell cb).toShell call s).1 (x0.run call.data).2 ∧
      (jsoncmdAppcall (shell cb).toShell call s).1.Decodes (x0.run call.data).1 := by
  intro x0 call hplain hlen hknown hroom
  let s0 : Server conf ShellState := { s with lines := .empty, bufptr := 0, state := .normal }
  have hv : s0.Valid := Server.valid_of_allFree h.free
  have hd : s0.Decodes x0 := ⟨rfl, rfl, rfl, by decide, (by simp)⟩
  have hbefore : s.beforeData (shell cb).toShell call = s0 := rfl
  have hvacant : (s.beforeData (shell cb).toShell call).Vacant :=
    hbefore ▸ hv.elim fun _ hq => hq.vacant
  exact call_answers rest hvacant rfl hd rfl (fun hn => by simp_all [call, connectCall]) hplain hlen
    hknown hroom

/-- The calls of an open connection, and those after them. -/
theorem Open.answers_run (h : Open s t) (hd : t.Decodes x) (hx : x.state = .normal)
    (events : List OpenEvent) (rest : List UInt8)
    (hplain : 255 ∉ (events.map OpenEvent.call).flatMap Call.data)
    (hlen : ∀ l ∈ x.lines ((events.map OpenEvent.call).flatMap Call.data ++ rest),
      l.length < conf.linelen)
    (hknown : ∀ l ∈ (x.run ((events.map OpenEvent.call).flatMap Call.data)).2, (kind? l).isSome)
    (hroom : Along (fun s call => (jsoncmdAppcall (shell cb).toShell call s).1)
      (HasRoom (shell cb).toShell) t (events.map OpenEvent.call)) :
    Answers t (runCalls (shell cb).toShell t (events.map OpenEvent.call))
        (x.run ((events.map OpenEvent.call).flatMap Call.data)).2 ∧
      Open s (runCalls (shell cb).toShell t (events.map OpenEvent.call)) ∧
      (runCalls (shell cb).toShell t (events.map OpenEvent.call)).Decodes
        (x.run ((events.map OpenEvent.call).flatMap Call.data)).1 := by
  induction events generalizing t x with
  | nil => exact ⟨⟨[], .nil, by simp [runCalls]⟩, h, hd⟩
  | cons e events ih =>
    simp only [List.map_cons, List.flatMap_cons, List.mem_append, not_or, Scan.run_append,
      Along, List.append_assoc] at hplain hlen hknown hroom ⊢
    obtain ⟨hans, hd'⟩ := h.answers_call hd hx _ rfl (fun hn => by simp_all [OpenEvent.call])
      hplain.1 hlen (fun l hl => hknown l (.inl hl)) hroom.1
    rw [Scan.lines_append] at hlen
    obtain ⟨hans', hopen, hd''⟩ := ih (h.event e) hd' (Scan.run_state hx hplain.1) hplain.2
      (fun l hl => hlen l (List.mem_append_right _ hl)) (fun l hl => hknown l (.inr hl)) hroom.2
    exact ⟨hans.trans hans', hopen, hd''⟩

/-- The end of a session: a close by the peer can bring commands. -/
theorem Open.answers_closing (h : Open s t) (hd : t.Decodes x) (hx : x.state = .normal)
    (c : Closing) (k : Nat) (hplain : 255 ∉ (c.calls.take k).flatMap Call.data)
    (hlen : ∀ l ∈ x.lines ((c.calls.take k).flatMap Call.data), l.length < conf.linelen)
    (hknown : ∀ l ∈ (x.run ((c.calls.take k).flatMap Call.data)).2, (kind? l).isSome)
    (hroom : Along (fun s call => (jsoncmdAppcall (shell cb).toShell call s).1)
      (HasRoom (shell cb).toShell) t (c.calls.take k)) :
    Answers t (runCalls (shell cb).toShell t (c.calls.take k))
      (x.run ((c.calls.take k).flatMap Call.data)).2 := by
  rcases c.take_calls k with hnil | ⟨call, e, j, hcalls, hconn, hdata⟩
  · rw [hnil]
    exact ⟨[], .nil, by simp [runCalls]⟩
  · rw [hcalls] at hplain hlen hknown hroom ⊢
    simp only [List.flatMap_cons, List.mem_append, not_or, Scan.run_append, Along]
      at hplain hlen hknown hroom ⊢
    obtain ⟨hans, hd'⟩ := h.answers_call hd hx _ hconn hdata hplain.1 hlen
      (fun l hl => hknown l (.inl hl)) hroom.1
    obtain ⟨htexts, hnone⟩ :=
      last_queuedTexts (shell cb).toShell (hd'.state ▸ hd'.not_close) e j
    rw [hnone, runCalls, run_cons]
    refine hans.trans ⟨[], .nil, htexts.trans ?_⟩
    rw [List.flatten_nil, List.append_nil]

/-- After any sessions, the commands of a session are answered in order, each one in full or not at
all, if each of them finds empty slots for its whole reply or none.  The session goes to any point
of its end; a state before that is the open end of a shorter session. -/
theorem responses_complete (cb : Callbacks) (shell0 : ShellState) (xs : List Session) (x : Session)
    (k : Nat) (hcmds : Commands ((x.callsTo k).flatMap Call.data))
    (hroom : Along (fun s call => (jsoncmdAppcall (shell cb).toShell call s).1)
      (HasRoom (shell cb).toShell) (runSessions (shell cb).toShell (Server.init shell0) xs)
      (x.callsTo k)) :
    let s := runSessions (shell cb).toShell (Server.init shell0) xs
    Answers s (runCalls (shell cb).toShell s (x.callsTo k))
      (decodeLines ((x.callsTo k).flatMap Call.data)).dropLast := by
  intro s
  have hidle : Idle s := (idle_init shell0).sessions (shell cb) xs
  let x0 : Scan := ⟨.normal, []⟩
  have hlines : ∀ cs, x0.lines cs = decodeLines cs := fun cs => (Scan.decodeLines_eq cs).symm
  have hlen : ∀ l ∈ x0.lines ((x.callsTo k).flatMap Call.data), l.length < conf.linelen :=
    fun l hl => Nat.lt_of_le_pred (by decide) (hcmds.length_le l (hlines _ ▸ hl))
  have hlast : (decodeLines ((x.callsTo k).flatMap Call.data)).dropLast =
      (x0.run ((x.callsTo k).flatMap Call.data)).2 := by
    rw [← hlines, Scan.lines, List.dropLast_concat]
  have hknown := hcmds.known
  have hplain := hcmds.plain
  rw [hlast] at hknown ⊢
  simp only [Session.callsTo, Session.openCalls, List.cons_append, List.flatMap_cons,
    List.flatMap_append, List.mem_append, not_or, Scan.run_append, Along, along_append]
    at hlen hknown hroom hplain ⊢
  obtain ⟨hans, hd'⟩ := hidle.answers_connect x.data x.mss _ hplain.1 hlen
    (fun l hl => hknown l (.inl hl)) hroom.1
  rw [Scan.lines_append] at hlen
  have hlen' := fun l hl => hlen l (List.mem_append_right _ hl)
  have hx := Scan.run_state (x := x0) rfl hplain.1
  obtain ⟨hans', hopen, hd''⟩ := (hidle.connect x.data x.mss).answers_run hd' hx x.events _
    hplain.2.1 hlen' (fun l hl => hknown l (.inr (.inl hl))) hroom.2.1
  rw [Scan.lines_append] at hlen'
  have hclosing := hopen.answers_closing hd'' (Scan.run_state hx hplain.2.1) x.closing k hplain.2.2
    (fun l hl => hlen' l (List.mem_append_right _ hl)) (fun l hl => hknown l (.inr (.inr hl)))
    hroom.2.2
  have hall := hans.trans (hans'.trans hclosing)
  rw [runCalls, run_cons, run_append]
  exact hall

/-- A `getvalues` command in a line of its own. -/
def getvalues : List UInt8 := ascii "\x7b\"getvalues\"\x7d\n"

/-- A session with one segment of data and an acknowledgment. -/
def exchange (data : List UInt8) : Session where
  data := none
  mss := 100
  events :=
    [⟨false, some data, false, false, 100, by simp⟩, ⟨true, none, false, false, 100, by simp⟩]
  closing := .abort

/-- The same session, which the peer closes with a last command. -/
def parting : Session :=
  { exchange getvalues with
    closing := .close false (some (ascii "\"setvalues\"[1,2,3,4,5,6,7,8]\n")) 100 .abort }

theorem responses_complete_getvalues :
    let sh := (shell physCallbacks).toShell
    let s := runSessions sh (Server.init shellState) []
    Answers s (runCalls sh s (parting.callsTo 2))
      (decodeLines ((parting.callsTo 2).flatMap Call.data)).dropLast :=
  responses_complete physCallbacks shellState [] parting 2
    ⟨by decide +kernel, by rw [Scan.decodeLines_eq]; decide +kernel,
      by rw [Scan.decodeLines_eq]; decide +kernel⟩
    (by decide +kernel)

/-- The pool has 20 lines, and a response of 17 lines leaves room for the first three of another
one. -/
theorem responses_cut :
    let sh := (shell physCallbacks).toShell
    Commands (getvalues ++ getvalues) ∧
      ¬Answers (Server.init shellState) (runCalls sh (Server.init shellState)
        (exchange (getvalues ++ getvalues)).openCalls)
        (decodeLines (getvalues ++ getvalues)).dropLast := by
  have hlines : decodeLines (getvalues ++ getvalues) =
      [ascii "\x7b\"getvalues\"\x7d", ascii "\x7b\"getvalues\"\x7d", []] := by
    rw [Scan.decodeLines_eq]
    decide +kernel
  refine ⟨⟨by decide, by rw [hlines]; decide, by rw [hlines]; decide⟩, ?_⟩
  rw [hlines]
  rintro ⟨replies, hall, htexts⟩
  have hlen := congrArg List.length htexts
  rw [List.length_append, List.length_flatten] at hlen
  have h20 : (runCalls (shell physCallbacks).toShell (Server.init shellState)
      (exchange (getvalues ++ getvalues)).openCalls).queuedTexts.length = 20 := by decide +kernel
  -- each of the two replies has 17 lines or none
  have hreply {r : List (List UInt8)} (h : Answer (ascii "\x7b\"getvalues\"\x7d") r) :
      r.length = 0 ∨ r.length = 17 := by
    rcases h with rfl | ⟨k, hk, hr⟩
    · exact .inl rfl
    · obtain rfl : Kind.get = k := Option.some.inj hk
      exact .inr hr.length
  cases hall with
  | cons h1 hall =>
    cases hall with
    | cons h2 hall =>
      cases hall
      have h0 : (Server.init shellState : Server conf ShellState).queuedTexts.length = 0 := rfl
      rw [h20, h0] at hlen
      simp only [List.map_cons, List.map_nil, List.sum_cons, List.sum_nil] at hlen
      rcases hreply h1 with h1 | h1 <;> rcases hreply h2 with h2 | h2 <;> omega

end Jsoncmd

end OpenPLC
