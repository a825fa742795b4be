import OpenPLC.Apps.Responses
import OpenPLC.Lib.Decimal

/-! The commands of `jsoncmd`: what the shell does with a line that is a command, and with one that
is not.  The shell finds the parts of a line with `strchr` and compares four bytes of its first
token. -/

namespace OpenPLC

open Lib

namespace Slots

variable {n : Nat}

theorem push_isSome_iff (q : Slots n) (line : Fin n) : (q.push line).isSome ↔ none ∈ q.val := by
  constructor
  · intro h
    simp only [push] at h
    split at h
    · next i hi =>
      obtain ⟨hlt, hnone, -⟩ := List.findIdx?_eq_some_iff_getElem.mp hi
      rw [← Option.isNone_iff_eq_none.mp hnone]
      exact List.getElem_mem hlt
    · cases h
  · intro h
    cases hp : q.push line with
    | some _ => rfl
    | none => exact absurd h (push_eq_none hp)

end Slots

namespace Server

variable {K : Conf} {σ : Type*} {Q : Prop} {s t : Server K σ}

/-- A block is free for a line, and a slot. -/
def TakesLine (s : Server K σ) : Prop := s.linemem.alloc.isSome ∧ none ∈ s.lines.val

instance (s : Server K σ) : Decidable s.TakesLine := inferInstanceAs (Decidable (_ ∧ _))

theorem LineStep.queuedTexts {text : List UInt8} (h : LineStep Q s (some text) t) :
    t.queuedTexts = s.queuedTexts ++ if s.TakesLine then [text] else [] := by
  cases h with
  | drop h => simp [TakesLine, h, Server.queuedTexts, log, Obs.queued?]
  | put line m halloc hcount hmem =>
    obtain ⟨m₀, halloc⟩ := halloc
    have hpush := s.lines.push_isSome_iff line
    simp only [sendline, TakesLine, halloc, Option.isSome_some, true_and]
    cases hp : s.lines.push line with
    | some lines =>
      rw [hp] at hpush
      simp [Server.queuedTexts, log, Obs.queued?, hpush.mp rfl, Server.text]
    | none =>
      rw [hp] at hpush
      rw [if_neg fun h => by simpa using hpush.mpr h]
      refine (deallocLine_emits _ line).queuedTexts.trans ?_
      simp [Server.queuedTexts, log, Obs.queued?]

theorem LineSteps.queuedTexts {texts : List (Option (List UInt8))} (h : LineSteps Q s texts t) :
    ∃ ls, t.queuedTexts = s.queuedTexts ++ ls ∧ ls.Sublist (texts.filterMap id) := by
  induction h with
  | refl => exact ⟨[], by simp, List.nil_sublist _⟩
  | @head text texts s t u hstep _ ih =>
    obtain ⟨ls, hu, hls⟩ := ih
    cases text with
    | none =>
      cases hstep
      exact ⟨ls, hu, hls⟩
    | some text =>
      refine ⟨(if s.TakesLine then [text] else []) ++ ls, ?_, ?_⟩
      · rw [hu, hstep.queuedTexts, List.append_assoc]
      · split
        · exact hls.cons_cons text
        · exact hls.cons text

theorem shellInput_lineSteps (sh : QuietShell σ) (s : Server K σ) :
    let r := sh.input (cstr (s.buf.read 0 K.linelen)) s.shell
    (s.shellInput sh.toShell).shell = r.2 ∧
      ∃ s₁ : Server K σ, s₁.queuedTexts = s.queuedTexts ∧ (s₁.TakesLine ↔ s.TakesLine) ∧
        LineSteps False s₁ (r.1.map (ShellCall.text K)) (s.shellInput sh.toShell) := by
  intro r
  set s₁ : Server K σ :=
    { s with shell := r.2 }.log (.shellInput (s.buf.read 0 K.linelen) s.linemem.numFree) with hs₁
  have hsteps := s₁.shellCalls_steps (Q := False)
    (sh.input_quiet (cstr (s.buf.read 0 K.linelen)) s.shell)
  refine ⟨hsteps.sameParser.shell, s₁, ?_, .rfl, hsteps⟩
  simp [hs₁, Server.queuedTexts, log, Obs.queued?]

end Server

namespace Jsoncmd

/-! ### Numbers -/

theorem isDigit_digitByte (d : Fin 10) : isDigit (digitByte d) = true := by
  revert d
  decide

theorem isSpace_digitByte (d : Fin 10) : isSpace (digitByte d) = false := by
  revert d
  decide

theorem digitsVal_digits (ds : List (Fin 10)) :
    digitsVal (ds.map digitByte) = UInt16.ofNat (magnitude ds) := by
  have hstep (v : Nat) : (ds.map digitByte).foldl (fun v d => v * 10 + (d - 48).toUInt16)
      (UInt16.ofNat v) = UInt16.ofNat (ds.foldl (fun v (d : Fin 10) => v * 10 + d.val) v) := by
    induction ds generalizing v with
    | nil => rfl
    | cons d ds ih =>
      have hd : (digitByte d - 48).toUInt16 = UInt16.ofNat d := by
        revert d
        decide
      simp only [List.map_cons, List.foldl_cons, hd]
      rw [← ih]
      simp
  exact hstep 0

theorem scanInt_numeral (n : Numeral) {r : List UInt8} (h0 : 0 ∉ r)
    (hr : ∀ b, r.head? = some b → isDigit b = false) :
    scanInt (n.bytes ++ r) = some (UInt16.ofInt n.value) := by
  obtain ⟨d, ds, hds⟩ := List.exists_cons_of_ne_nil n.digits_ne
  have hnot : 0 ∉ n.bytes ++ r := by
    simpa [h0] using n.not_mem_bytes (b := 0) (by decide)
  have hdrop : (cstr (n.bytes ++ r)).dropWhile isSpace =
      n.sign.bytes ++ (n.digits.map digitByte ++ r) := by
    rw [cstr_of_not_mem hnot, Numeral.bytes, List.append_assoc, List.append_assoc,
      List.dropWhile_append_of_pos fun b hb => by rw [List.eq_of_mem_replicate hb]; rfl, hds]
    cases n.sign
    · simp [Sign.bytes, isSpace_digitByte]
    · exact List.dropWhile_cons_of_neg (by decide)
    · exact List.dropWhile_cons_of_neg (by decide)
  have htake : (n.digits.map digitByte ++ r).takeWhile isDigit = n.digits.map digitByte := by
    rw [List.takeWhile_append_of_pos (by simp [isDigit_digitByte])]
    cases r with
    | nil => simp
    | cons b r => simp [hr b rfl]
  have hne : n.digits.map digitByte ≠ [] := by simpa using n.digits_ne
  have hd : ∀ d : Fin 10, digitByte d ≠ 45 ∧ digitByte d ≠ 43 := by decide
  have hnat : UInt16.ofInt (magnitude n.digits : Int) = digitsVal (n.digits.map digitByte) := by
    rw [digitsVal_digits]
    refine UInt16.toNat_inj.mp ?_
    rw [UInt16.ofInt, UInt16.toNat_ofNat', UInt16.toNat_ofNat']
    omega
  simp only [scanInt, hdrop, Numeral.value]
  cases n.sign with
  | none =>
    rw [hds, List.map_cons] at htake hne hnat ⊢
    simp only [Sign.bytes, List.nil_append, List.cons_append] at htake ⊢
    simp [hd, htake, hnat]
  | plus => simp [Sign.bytes, htake, hne, hnat]
  | minus => simp [Sign.bytes, htake, hne, hnat]

/-! ### Reading inside the line -/

/-- The state with the value that `sscanf` stores, if any. -/
def ShellState.store (s : ShellState) (i : Fin 8) (v : Option UInt16) : ShellState :=
  { s with values := v.elim s.values (Function.update s.values i) }

theorem scanValues_cons (i : Fin 8) (is : List (Fin 8)) (str : List UInt8) (s : ShellState) :
    scanValues (i :: is) (some str) s =
      scanValues is (Lib.afterChar str 44) (s.store i (scanInt str)) := by
  simp only [scanValues, deref, ShellState.store]
  cases scanInt str <;> rfl

/-- A pointer from `strchr` is read inside the line when there is a comma for every value but the
first. -/
theorem scanValues_strayed {str : List UInt8} {is : List (Fin 8)} (s : ShellState)
    (h : is.length ≤ (cstr str).count 44 + 1) :
    (scanValues is (some str) s).strayed = s.strayed := by
  induction is generalizing str s with
  | nil => rfl
  | cons i is ih =>
    rw [scanValues_cons]
    cases hnext : Lib.afterChar str 44 with
    | none =>
      have hcount : (cstr str).count 44 = 0 :=
        List.count_eq_zero.mpr (afterChar_eq_none.mp hnext)
      obtain rfl : is = [] := by
        rw [hcount, List.length_cons] at h
        exact List.eq_nil_of_length_eq_zero (by omega)
      rfl
    | some rest =>
      obtain ⟨p, hp, hstr⟩ := afterChar_eq_some hnext
      refine ih _ ?_
      rw [hstr, List.count_append, List.count_eq_zero.mpr hp, List.count_cons_self] at h
      rw [cstr_of_afterChar hnext]
      simp only [List.length_cons] at h
      omega

theorem scanValues_strayed_of_strayed {is : List (Fin 8)} {p : Option (List UInt8)} {s : ShellState}
    (h : s.strayed = true) : (scanValues is p s).strayed = true := by
  induction is generalizing p s with
  | nil => exact h
  | cons i is ih =>
    simp only [scanValues]
    have hderef : (deref p s).2.strayed = true := by
      cases p
      · rfl
      · exact h
    refine ih ?_
    split
    · exact hderef
    · exact hderef

/-- The first quoted token of a line, and what follows it. -/
def Quoted (line tok rest : List UInt8) : Prop :=
  ∃ pre, 34 ∉ pre ∧ 34 ∉ tok ∧ line = pre ++ 34 :: (tok ++ 34 :: rest)

/-- The text of a `[` and eight numbers. -/
def array (ns : Fin 8 → Numeral) : List UInt8 := 91 :: commaList ((List.finRange 8).map ns)

/-- A command: `getvalues`, or `setvalues` and eight numbers. -/
def WellFormed (line : List UInt8) : Prop :=
  ∃ tok rest, Quoted line tok rest ∧
    (tok = ascii "getvalues" ∨
      tok = ascii "setvalues" ∧ ∃ mid ns tail, rest = mid ++ array ns ++ tail)

/-- The pointer that `shell_input` gets for the token. -/
theorem Quoted.afterChar {line tok rest : List UInt8} (h : Quoted line tok rest) (h0 : 0 ∉ line) :
    Lib.afterChar line 34 = some (tok ++ 34 :: rest) := by
  obtain ⟨pre, hpre, -, rfl⟩ := h
  exact afterChar_append hpre h0

theorem WellFormed.strayed {line : List UInt8} (h : WellFormed line) (h0 : 0 ∉ line)
    (s : ShellState) : (shellInput physCallbacks line s).2.strayed = s.strayed := by
  obtain ⟨tok, rest, hquoted, htok⟩ := h
  have hnot : 0 ∉ tok ++ 34 :: rest := by
    obtain ⟨pre, -, -, rfl⟩ := hquoted
    simp_all
  simp only [shellInput, hquoted.afterChar h0, deref]
  rcases htok with rfl | ⟨rfl, mid, ns, tail, rfl⟩
  · rw [strncmpEq_of_isPrefix (List.prefix_append ..) (by decide) (by decide), if_pos (by decide)]
    rfl
  · rw [strncmpEq_of_isPrefix (List.prefix_append ..) (by decide) (by decide), if_neg (by decide),
      strncmpEq_of_isPrefix (List.prefix_append ..) (by decide) (by decide), if_pos (by decide)]
    have hsuffix : cstr (ascii "setvalues" ++ 34 :: (mid ++ array ns ++ tail)) =
        (ascii "setvalues" ++ 34 :: mid) ++
          91 :: (commaList ((List.finRange 8).map ns) ++ tail) := by
      rw [cstr_of_not_mem hnot]
      simp [array]
    simp only [physCallbacks, physOut]
    cases hb : Lib.afterChar (ascii "setvalues" ++ 34 :: (mid ++ array ns ++ tail)) 91 with
    | none =>
      refine absurd (afterChar_eq_none.mp hb) (not_not_intro ?_)
      rw [hsuffix]
      simp
    | some str =>
      have hcount := (suffix_of_afterChar hb hsuffix).sublist.count_le 44
      have hcommas := count_commaList (show (List.finRange 8).map ns ≠ [] by simp)
      rw [List.count_append] at hcount
      rw [List.length_map] at hcommas
      refine scanValues_strayed s ?_
      rw [cstr_of_afterChar hb]
      omega

/-! ### The outputs -/

theorem scanValues_commaList (ns : Fin 8 → Numeral) {is : List (Fin 8)} (his : is ≠ [])
    {tail : List UInt8} (h0 : 0 ∉ commaList (is.map ns) ++ tail)
    (htail : ∀ b, tail.head? = some b → isDigit b = false) (s : ShellState) :
    (scanValues is (some (commaList (is.map ns) ++ tail)) s).values =
      fun i => if i ∈ is then UInt16.ofInt (ns i).value else s.values i := by
  induction is generalizing s with
  | nil => exact absurd rfl his
  | cons i is ih =>
    rw [scanValues_cons]
    cases is with
    | nil =>
      rw [List.map_singleton, commaList_singleton] at h0 ⊢
      rw [scanInt_numeral (ns i) (fun h => h0 (List.mem_append_right _ h)) htail]
      funext j
      simp only [scanValues, ShellState.store, Option.elim_some, Function.update_apply,
        List.mem_singleton]
      split
      · next h => rw [h]
      · rfl
    | cons j js =>
      have hlist : commaList ((i :: j :: js).map ns) ++ tail =
          (ns i).bytes ++ 44 :: (commaList ((j :: js).map ns) ++ tail) := by
        rw [List.map_cons, commaList_cons (ns i) (by simp), List.append_assoc, List.cons_append]
      rw [hlist] at h0 ⊢
      have hrest : 0 ∉ commaList ((j :: js).map ns) ++ tail :=
        fun h => h0 (List.mem_append_right _ (List.mem_cons_of_mem _ h))
      rw [scanInt_numeral (ns i) (fun h => h0 (List.mem_append_right _ h)) (by simp [isDigit]),
        afterChar_append ((ns i).not_mem_bytes (by decide)) h0, ih (by simp) hrest]
      funext k
      simp only [ShellState.store, Option.elim_some, Function.update_apply, List.mem_cons]
      by_cases hk : k = i
      · simp [hk]
      · simp [hk]

theorem physOut_fold (P : Fin 8 → Prop) [DecidablePred P] (is : List (Fin 8)) (p : UInt8)
    (i : Fin 8) :
    (is.foldl (fun p i => p ||| ((if P i then 1 else 0) <<< UInt8.ofNat i)) p).toBitVec.getLsbD i =
      (p.toBitVec.getLsbD i || decide (i ∈ is ∧ P i)) := by
  have hbit : ∀ i j : Fin 8,
      ((1 : UInt8) <<< UInt8.ofNat j).toBitVec.getLsbD i = decide (i = j) := by
    decide
  have hzero : ∀ i j : Fin 8, ((0 : UInt8) <<< UInt8.ofNat j).toBitVec.getLsbD i = false := by
    decide
  induction is generalizing p with
  | nil => simp
  | cons j is ih =>
    rw [List.foldl_cons, ih, UInt8.toBitVec_or, BitVec.getLsbD_or]
    by_cases hj : P j
    · rw [if_pos hj, hbit]
      by_cases hij : i = j
      · simp [hij, hj]
      · simp [hij]
    · rw [if_neg hj, hzero]
      by_cases hij : i = j
      · simp [hij, hj]
      · simp [hij]

@[simp] theorem physOut_values (s : ShellState) : (physOut s).values = s.values := rfl

@[simp] theorem physOut_strayed (s : ShellState) : (physOut s).strayed = s.strayed := rfl

theorem physOut_bit (s : ShellState) (i : Fin 8) :
    (physOut s).portc.toBitVec.getLsbD i = decide (s.values i ≠ 0) ∧
      (physOut s).portd.toBitVec.getLsbD i = decide (s.values i ≠ 0) := by
  have h := physOut_fold (fun i => s.values i ≠ 0) (List.finRange 8) 0 i
  have hbit : (physOut s).portc.toBitVec.getLsbD i = decide (s.values i ≠ 0) := by
    refine h.trans ?_
    simp
  exact ⟨hbit, hbit⟩

/-! ### The commands -/

variable {s t : Server conf ShellState}

theorem replyTexts_okReply :
    replyTexts okReply = [ascii "\x7b\"response\":\"OK\"\x7d\r\n"] := by decide

/-- A line that sets the outputs to eight numbers: `setvalues` is its first quoted token, and they
follow the first `[` after the token, up to a `]`. -/
structure Sets (line : List UInt8) (ns : Fin 8 → Numeral) : Prop where
  eq : ∃ pre mid tail, 34 ∉ pre ∧ 91 ∉ mid ∧
    line = pre ++ 34 :: (ascii "setvalues" ++ 34 :: (mid ++ array ns ++ 93 :: tail))
  range : ∀ i, -2 ^ 15 ≤ (ns i).value ∧ (ns i).value < 2 ^ 15

theorem Sets.wellFormed {line : List UInt8} {ns : Fin 8 → Numeral} (h : Sets line ns) :
    WellFormed line := by
  obtain ⟨pre, mid, tail, hpre, -, rfl⟩ := h.eq
  exact ⟨ascii "setvalues", mid ++ array ns ++ 93 :: tail, ⟨pre, hpre, by decide, rfl⟩,
    .inr ⟨rfl, mid, ns, 93 :: tail, rfl⟩⟩

/-- The loop gets a pointer to the first number, and the callback the numbers. -/
theorem Sets.shellInput (cb : Callbacks) {line : List UInt8} {ns : Fin 8 → Numeral}
    (h : Sets line ns) (h0 : 0 ∉ line) (s : ShellState) :
    ∃ u : ShellState, (u.values = fun i => UInt16.ofInt (ns i).value) ∧
      Jsoncmd.shellInput cb line s = (okReply, cb.set u) := by
  obtain ⟨pre, mid, tail, hpre, hmid, rfl⟩ := h.eq
  have hcmd : (ascii "setvalues" ++ 34 :: (mid ++ array ns ++ 93 :: tail)) =
      (ascii "setvalues" ++ 34 :: mid) ++
        91 :: (commaList ((List.finRange 8).map ns) ++ 93 :: tail) := by
    simp [array]
  have hnot : 0 ∉ ascii "setvalues" ++ 34 :: (mid ++ array ns ++ 93 :: tail) :=
    fun hm => h0 (List.mem_append_right _ (List.mem_cons_of_mem _ hm))
  have hnot' := hnot
  rw [hcmd] at hnot'
  have hbracket : Lib.afterChar (ascii "setvalues" ++ 34 :: (mid ++ array ns ++ 93 :: tail)) 91 =
      some (commaList ((List.finRange 8).map ns) ++ 93 :: tail) := by
    rw [hcmd]
    refine afterChar_append ?_ hnot'
    rw [List.mem_append, List.mem_cons]
    rintro (h | h | h)
    · exact absurd h (by decide)
    · exact absurd h (by decide)
    · exact hmid h
  have htail : 0 ∉ commaList ((List.finRange 8).map ns) ++ 93 :: tail :=
    fun hm => hnot' (List.mem_append_right _ (List.mem_cons_of_mem _ hm))
  refine ⟨_, (scanValues_commaList ns (by simp) htail (by simp [isDigit]) s).trans (by simp), ?_⟩
  simp only [Jsoncmd.shellInput, afterChar_append hpre h0, deref]
  rw [strncmpEq_of_isPrefix (List.prefix_append ..) (by decide) (by decide), if_neg (by decide),
    strncmpEq_of_isPrefix (List.prefix_append ..) (by decide) (by decide), if_pos (by decide),
    hbracket]

theorem toInt_ofInt {v : Int} (h : -2 ^ 15 ≤ v ∧ v < 2 ^ 15) :
    (UInt16.ofInt v).toInt16.toInt = v := by
  have hbits : (UInt16.ofInt v).toInt16 = Int16.ofInt v := by
    refine Int16.toBitVec_inj.mp (BitVec.eq_of_toNat_eq ?_)
    simp [UInt16.ofInt, Int.emod_lt_of_pos]
  rw [hbits]
  exact Int16.toInt_ofInt_of_le h.1 h.2

theorem ofInt_ne_zero {v : Int} (h : -2 ^ 15 ≤ v ∧ v < 2 ^ 15) : UInt16.ofInt v ≠ 0 ↔ v ≠ 0 := by
  refine not_congr ⟨fun hv => ?_, fun hv => by rw [hv]; rfl⟩
  rw [← toInt_ofInt h, hv]
  rfl

theorem shellInput_lineSteps (s : Server conf ShellState) :
    let r := shellInput physCallbacks (cstr (s.buf.read 0 conf.linelen)) s.shell
    (s.shellInput (shell physCallbacks).toShell).shell = r.2 ∧
      ∃ s₁ : Server conf ShellState, s₁.queuedTexts = s.queuedTexts ∧
        (s₁.TakesLine ↔ s.TakesLine) ∧ Server.LineSteps False s₁ (r.1.map (ShellCall.text conf))
          (s.shellInput (shell physCallbacks).toShell) :=
  Server.shellInput_lineSteps (shell physCallbacks) s

theorem lineSteps_singleton {s t : Server conf ShellState} {text : List UInt8}
    (h : Server.LineSteps False s [some text] t) :
    t.queuedTexts = s.queuedTexts ++ if s.TakesLine then [text] else [] := by
  cases h with
  | head hstep hrest =>
    cases hrest
    exact hstep.queuedTexts

theorem Sets.stores {line : List UInt8} {ns : Fin 8 → Numeral} (h : Sets line ns) (h0 : 0 ∉ line)
    (s : ShellState) :
    let t := (Jsoncmd.shellInput physCallbacks line s).2
    (∀ i, (t.values i).toInt16.toInt = (ns i).value) ∧
      ∀ i : Fin 8, t.portc.toBitVec.getLsbD i = decide ((ns i).value ≠ 0) ∧
        t.portd.toBitVec.getLsbD i = decide ((ns i).value ≠ 0) := by
  obtain ⟨u, hvalues, hinput⟩ := h.shellInput physCallbacks h0 s
  rw [hinput]
  refine ⟨fun i => ?_, fun i => ?_⟩
  · change ((physOut u).values i).toInt16.toInt = _
    rw [physOut_values, hvalues]
    exact toInt_ofInt (h.range i)
  · have hbit := physOut_bit u i
    rwa [hvalues, decide_eq_decide.mpr (ofInt_ne_zero (h.range i))] at hbit

/-- `setvalues` sets every value and every output, and queues one response if it finds room. -/
theorem setvalues_outputs (s : Server conf ShellState) (ns : Fin 8 → Numeral)
    (h : Sets (cstr (s.buf.read 0 conf.linelen)) ns) :
    let t := s.shellInput (shell physCallbacks).toShell
    t.shell.strayed = s.shell.strayed ∧ (∀ i, (t.shell.values i).toInt16.toInt = (ns i).value) ∧
      (∀ i : Fin 8, t.shell.portc.toBitVec.getLsbD i = decide ((ns i).value ≠ 0) ∧
        t.shell.portd.toBitVec.getLsbD i = decide ((ns i).value ≠ 0)) ∧
      t.queuedTexts = s.queuedTexts ++
        if s.TakesLine then [ascii "\x7b\"response\":\"OK\"\x7d\r\n"] else [] := by
  intro t
  have h0 := zero_not_mem_cstr (s.buf.read 0 conf.linelen)
  obtain ⟨hshell, s₁, htexts, htakes, hsteps⟩ := shellInput_lineSteps s
  have hstrayed := h.wellFormed.strayed h0 s.shell
  obtain ⟨hvalues, hbits⟩ := h.stores h0 s.shell
  obtain ⟨u, -, hinput⟩ := h.shellInput physCallbacks h0 s.shell
  rw [← hshell] at hstrayed hvalues hbits
  rw [hinput] at hsteps
  dsimp only at hsteps
  refine ⟨hstrayed, hvalues, hbits, ?_⟩
  have hok : okReply.map (ShellCall.text conf) =
      [some (ascii "\x7b\"response\":\"OK\"\x7d\r\n")] := by decide
  rw [hok] at hsteps
  rw [lineSteps_singleton hsteps, htexts]
  simp only [htakes]

/-- The numbers -0 to -7, with a space before each. -/
def negatives (i : Fin 8) : Numeral := ⟨1, .minus, [i.castLE (by decide)], by simp⟩

/-- The server with a line in its buffer. -/
def withLine (line : List UInt8) : Server conf ShellState :=
  { (Server.init shellState : Server conf ShellState) with buf := Mem.ofList line }

theorem setvalues_outputs_negatives :
    let s := withLine (ascii "\x7b\"setvalues\":[ -0, -1, -2, -3, -4, -5, -6, -7],\x7d")
    let t := s.shellInput (shell physCallbacks).toShell
    t.shell.strayed = false ∧ (∀ i, (t.shell.values i).toInt16.toInt = -i) := by
  intro s t
  have h : Sets (cstr (s.buf.read 0 conf.linelen)) negatives :=
    ⟨⟨[123], [58], [44, 125], by decide, by decide, by decide +kernel⟩, by decide⟩
  obtain ⟨hstrayed, hvalues, -⟩ := setvalues_outputs s negatives h
  exact ⟨hstrayed, fun i => (hvalues i).trans (by revert i; decide)⟩

/-- An earlier `[` hides the first number, and without a free block no response is queued. -/
theorem not_setvalues_outputs :
    let line := ascii "\"setvalues\"[[1,1,1,1,1,1,1,1]"
    let ones : Fin 8 → Numeral := fun _ => ⟨0, .none, [1], by simp⟩
    let s := withLine line
    let full : Server conf ShellState := { s with linemem := ⟨fun _ => 1, fun _ => .zero⟩ }
    line = ascii "\"setvalues\"" ++ 91 :: (array ones ++ [93]) ∧
      (s.shellInput (shell physCallbacks).toShell).shell.portc = 254 ∧
      (full.shellInput (shell physCallbacks).toShell).queuedTexts = full.queuedTexts := by
  decide +kernel

/-! ### Other lines -/

/-- Between `s` and `t` a line is rejected: the error is queued, and nothing is set. -/
structure Rejected (s t : Server conf ShellState) : Prop where
  queued : t.queuedTexts = s.queuedTexts ++ [ascii "\x7b\"response\":\"error\"\x7d\r\n"]
  values : t.shell.values = s.shell.values
  portc : t.shell.portc = s.shell.portc
  portd : t.shell.portd = s.shell.portd

/-- Without a quote, the shell reads at address 1. -/
theorem shellInput_strayed {line : List UInt8} (h : Lib.afterChar line 34 = none) (s : ShellState) :
    (shellInput physCallbacks line s).2.strayed = true := by
  simp only [shellInput, h, deref, physCallbacks]
  split
  · rfl
  split
  · rw [physOut_strayed]
    exact scanValues_strayed_of_strayed rfl
  · rfl

theorem error_not_mem_valuesReply (values : Fin 8 → UInt16) :
    ascii "\x7b\"response\":\"error\"\x7d\r\n" ∉ replyTexts (valuesReply values) := by
  intro h
  obtain ⟨call, hcall, htext⟩ := List.mem_filterMap.mp h
  have hlen (v : UInt16) : (ShellCall.prompt (inttostr v)).text conf ≠
      some (ascii "\x7b\"response\":\"error\"\x7d\r\n") := by
    intro hv
    have hle := length_cstr_le (inttostr v)
    have htake := congrArg List.length (Option.some.inj hv)
    rw [List.length_take] at htake
    have h4 : (inttostr v).length = 4 := rfl
    have h22 : (ascii "\x7b\"response\":\"error\"\x7d\r\n").length = 22 := rfl
    have h80 : conf.linelen = 80 := rfl
    omega
  simp only [valuesReply, List.cons_append, List.mem_cons, List.mem_append, List.mem_flatMap,
    List.not_mem_nil, or_false] at hcall
  rcases hcall with rfl | ⟨i, -, rfl | hcomma⟩ | rfl
  · exact absurd htext (by decide)
  · exact hlen _ htext
  · split at hcomma
    · rw [List.mem_singleton.mp hcomma] at htext
      exact absurd htext (by decide)
    · cases hcomma
  · exact absurd htext (by decide)

theorem not_rejected (s : Server conf ShellState) (calls : List ShellCall)
    (hinput :
      (shellInput physCallbacks (cstr (s.buf.read 0 conf.linelen)) s.shell).1 = calls)
    (herror : ascii "\x7b\"response\":\"error\"\x7d\r\n" ∉ replyTexts calls) :
    ¬Rejected s (s.shellInput (shell physCallbacks).toShell) := by
  intro hrej
  obtain ⟨-, s₁, htexts, -, hsteps⟩ := shellInput_lineSteps s
  rw [hinput] at hsteps
  obtain ⟨ls, hls, hsub⟩ := hsteps.queuedTexts
  rw [htexts] at hls
  obtain rfl := List.append_cancel_left (hls.symm.trans hrej.queued)
  rw [List.filterMap_map] at hsub
  exact herror (hsub.subset (List.mem_singleton_self _))

theorem rejected_iff_takesLine (s : Server conf ShellState)
    (hinput : shellInput physCallbacks (cstr (s.buf.read 0 conf.linelen)) s.shell =
      (errorReply, s.shell)) :
    Rejected s (s.shellInput (shell physCallbacks).toShell) ↔ s.TakesLine := by
  obtain ⟨hshell, s₁, htexts, htakes, hsteps⟩ := shellInput_lineSteps s
  rw [hinput] at hshell hsteps
  have herror : errorReply.map (ShellCall.text conf) =
      [some (ascii "\x7b\"response\":\"error\"\x7d\r\n")] := by decide
  dsimp only at hshell hsteps
  rw [herror] at hsteps
  have hqueued := lineSteps_singleton hsteps
  rw [htexts] at hqueued
  simp only [htakes] at hqueued
  constructor
  · intro hrej
    by_contra hroom
    have hnone := hrej.queued
    rw [hqueued, if_neg hroom] at hnone
    exact List.cons_ne_nil _ _ (List.append_cancel_left hnone).symm
  · intro hroom
    rw [if_pos hroom] at hqueued
    exact ⟨hqueued, by rw [hshell], by rw [hshell], by rw [hshell]⟩

/-- A line is read inside, and rejected if it is no command, if and only if it has a quote and,
unless it is a command, its first token does not begin like one and the error finds room. -/
theorem malformed_rejected_iff (s : Server conf ShellState) (hs : s.shell.strayed = false) :
    let line := cstr (s.buf.read 0 conf.linelen)
    let t := s.shellInput (shell physCallbacks).toShell
    (t.shell.strayed = false ∧ (¬WellFormed line → Rejected s t)) ↔
      ∃ tok, Lib.afterChar line 34 = some tok ∧ (WellFormed line ∨
        strncmpEq tok (ascii "getvalues") 4 = false ∧ strncmpEq tok (ascii "setvalues") 4 = false ∧
          s.TakesLine) := by
  intro line t
  have h0 : 0 ∉ line := zero_not_mem_cstr (s.buf.read 0 conf.linelen)
  have hshell : t.shell = (shellInput physCallbacks line s.shell).2 := (shellInput_lineSteps s).1
  cases htok : Lib.afterChar line 34 with
  | none =>
    refine iff_of_false (fun h => ?_) (fun ⟨tok, h, _⟩ => nomatch h)
    have hstrayed := shellInput_strayed htok s.shell
    rw [← hshell, h.1] at hstrayed
    cases hstrayed
  | some tok =>
    by_cases hwf : WellFormed line
    · refine iff_of_true ⟨?_, fun h => absurd hwf h⟩ ⟨tok, rfl, .inl hwf⟩
      rw [hshell, hwf.strayed h0, hs]
    simp only [hwf, not_false_eq_true, forall_const, false_or, Option.some.injEq, exists_eq_left']
    cases hget : strncmpEq tok (ascii "getvalues") 4 with
    | true =>
      refine iff_of_false (fun h => ?_) (fun h => nomatch h.1)
      refine not_rejected s _ ?_ (error_not_mem_valuesReply (physIn s.shell).values) h.2
      simp only [shellInput, line, htok, deref, hget, ↓reduceIte, physCallbacks]
    | false =>
    cases hset : strncmpEq tok (ascii "setvalues") 4 with
    | true =>
      refine iff_of_false (fun h => ?_) (fun h => nomatch h.2.1)
      refine not_rejected s okReply ?_ (by decide) h.2
      simp only [shellInput, line, htok, deref, hget, hset, Bool.false_eq_true, ↓reduceIte]
    | false =>
    have hinput : shellInput physCallbacks line s.shell = (errorReply, s.shell) := by
      simp [shellInput, htok, deref, hget, hset]
    rw [hshell, hinput]
    simp only [hs, true_and]
    exact rejected_iff_takesLine s hinput

theorem malformed_rejected_iff_help :
    let s := withLine (ascii "\x7b\"help\"\x7d")
    let t := s.shellInput (shell physCallbacks).toShell
    t.shell.strayed = false ∧
      (¬WellFormed (cstr (s.buf.read 0 conf.linelen)) → Rejected s t) := by
  intro s t
  exact (malformed_rejected_iff s rfl).mpr
    ⟨ascii "help\"\x7d", by decide +kernel, .inr ⟨by decide, by decide, by decide⟩⟩

/-- A line without a quote makes the shell read at address 1, and a token that only begins like
`setvalues` sets the outputs. -/
theorem not_malformed_rejected :
    let s := withLine (ascii "setvalues")
    let s' := withLine (ascii "\"setv\"[1,1,1,1,1,1,1,1]")
    ¬WellFormed (cstr (s.buf.read 0 conf.linelen)) ∧
      (s.shellInput (shell physCallbacks).toShell).shell.strayed = true ∧
      ¬WellFormed (cstr (s'.buf.read 0 conf.linelen)) ∧ s'.shell.portc = 0 ∧
      (s'.shellInput (shell physCallbacks).toShell).shell.portc = 255 := by
  intro s s'
  have hline : cstr (s.buf.read 0 conf.linelen) = ascii "setvalues" := by decide +kernel
  have hline' : cstr (s'.buf.read 0 conf.linelen) =
      34 :: (ascii "setv" ++ 34 :: ascii "[1,1,1,1,1,1,1,1]") := by decide +kernel
  refine ⟨?_, by decide +kernel, ?_, rfl, by decide +kernel⟩
  · rintro ⟨tok, rest, ⟨pre, -, -, heq⟩, -⟩
    rw [hline] at heq
    have hquote : (34 : UInt8) ∈ ascii "setvalues" := by
      rw [heq]
      simp
    exact absurd hquote (by decide)
  · rintro ⟨tok, rest, hquoted, htok⟩
    have h0 := zero_not_mem_cstr (s'.buf.read 0 conf.linelen)
    have hafter := hquoted.afterChar h0
    have hstart : tok.take 5 = ascii "setva" ∨ tok.take 5 = ascii "getva" := by
      rcases htok with rfl | ⟨rfl, -⟩
      · exact .inr (by decide)
      · exact .inl (by decide)
    have hlen : 5 ≤ tok.length := by
      rcases htok with rfl | ⟨rfl, -⟩
      · decide
      · decide
    rw [hline', show Lib.afterChar (34 :: (ascii "setv" ++ 34 :: ascii "[1,1,1,1,1,1,1,1]")) 34 =
      some (ascii "setv" ++ 34 :: ascii "[1,1,1,1,1,1,1,1]") by decide] at hafter
    have htake := congrArg (List.take 5) (Option.some.inj hafter)
    rw [List.take_append_of_le_length hlen] at htake
    rw [← htake] at hstart
    exact absurd hstart (by decide)

end Jsoncmd

end OpenPLC
