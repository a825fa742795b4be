import OpenPLC.Apps.Commands

/-! The numbers that `getvalues` writes, and those that `setvalues` read.  `inttostr` writes three
characters for an unsigned number, so that the two agree on the numbers from 0 to 999. -/

namespace OpenPLC

open Lib

namespace Jsoncmd

/-- A number below 1000 as `inttostr` writes it. -/
def written (v : Fin 1000) : Numeral :=
  if v.val < 10 then ⟨2, .none, [Fin.ofNat 10 v], by simp⟩
  else if v.val < 100 then ⟨1, .none, [Fin.ofNat 10 (v / 10), Fin.ofNat 10 v], by simp⟩
  else ⟨0, .none, [Fin.ofNat 10 (v / 100), Fin.ofNat 10 (v / 10), Fin.ofNat 10 v], by simp⟩

theorem inttostr_written (v : Fin 1000) :
    (written v).bytes = cstr (inttostr (UInt16.ofInt v.val)) ∧ (written v).value = v.val := by
  revert v
  decide +kernel

/-- A small negative number is written with a byte that no number is written with. -/
theorem inttostr_negative (k : Fin 99) :
    190 ∈ cstr (inttostr (UInt16.ofInt (-(k.val + 1)))) ∨
      191 ∈ cstr (inttostr (UInt16.ofInt (-(k.val + 1)))) := by
  revert k
  decide +kernel

theorem length_cstr_inttostr (i : UInt16) : (cstr (inttostr i)).length ≤ 3 := by
  have hnul : inttostr i = (inttostr i).take 3 ++ 0 :: [] := rfl
  rw [hnul, cstr_append_zero]
  exact length_cstr_le _

/-- `inttostr` writes a number from 0 to 999 in decimal, and no other number. -/
theorem inttostr_iff {v : Int} :
    (∃ n : Numeral, n.bytes = cstr (inttostr (UInt16.ofInt v)) ∧ n.value = v) ↔
      0 ≤ v ∧ v < 1000 := by
  constructor
  · rintro ⟨n, hbytes, rfl⟩
    obtain ⟨hlower, hupper⟩ :=
      n.value_of_length_le (hbytes ▸ length_cstr_inttostr (UInt16.ofInt n.value))
    refine ⟨?_, by omega⟩
    by_contra hneg
    have hbyte := inttostr_negative ⟨(-n.value - 1).toNat, by omega⟩
    rw [show -(((-n.value - 1).toNat : Int) + 1) = n.value by omega, ← hbytes] at hbyte
    rcases hbyte with hbyte | hbyte
    · exact n.not_mem_bytes (by decide) hbyte
    · exact n.not_mem_bytes (by decide) hbyte
  · rintro ⟨hlower, hupper⟩
    obtain ⟨hbytes, hvalue⟩ := inttostr_written ⟨v.toNat, by omega⟩
    rw [Int.toNat_of_nonneg hlower] at hbytes hvalue
    exact ⟨_, hbytes, hvalue⟩

/-- The reply to `getvalues` with eight numbers. -/
def valuesText (ns : Fin 8 → Numeral) : List UInt8 :=
  ascii "\x7b\"response\":\"OK\",\"values\":" ++ array ns ++ ascii "]\x7d\r\n"

theorem valuesReply_flatten (values : Fin 8 → UInt16) :
    (replyTexts (valuesReply values)).flatten =
      ascii "\x7b\"response\":\"OK\",\"values\":" ++
        91 :: [44].intercalate ((List.finRange 8).map fun i => cstr (inttostr (values i))) ++
          ascii "]\x7d\r\n" := by
  have hnumber (v : UInt16) :
      (ShellCall.prompt (inttostr v)).text conf = some (cstr (inttostr v)) := by
    have hlen := length_cstr_inttostr v
    refine congrArg some (List.take_of_length_le ?_)
    exact hlen.trans (by decide)
  have hcomma : (ShellCall.prompt (ascii ",")).text conf = some [44] := by decide
  have hopen : (ShellCall.prompt (ascii "\x7b\"response\":\"OK\",\"values\":[")).text conf =
      some (ascii "\x7b\"response\":\"OK\",\"values\":[") := by decide
  have hclose : (ShellCall.output (ascii "]\x7d") []).text conf =
      some (ascii "]\x7d\r\n") := by decide
  have hstart : ascii "\x7b\"response\":\"OK\",\"values\":[" =
      ascii "\x7b\"response\":\"OK\",\"values\":" ++ [91] := by decide
  simp only [replyTexts, valuesReply, List.finRange_succ, List.finRange_zero]
  simp [hnumber, hcomma, hopen, hclose]
  simp [hstart]

theorem valuesReply_iff (v : Fin 8 → Int) :
    (∃ ns, (replyTexts (valuesReply fun i => UInt16.ofInt (v i))).flatten = valuesText ns ∧
        ∀ i, (ns i).value = v i) ↔ ∀ i, 0 ≤ v i ∧ v i < 1000 := by
  simp only [← inttostr_iff, valuesReply_flatten, valuesText, array, commaList]
  constructor
  · rintro ⟨ns, htext, hvalues⟩ i
    have hlists := (List.cons_inj_right _).mp
      (List.append_cancel_left (List.append_cancel_right htext))
    have hmap := eq_of_intercalate_eq (by simp) (fun m hm => ?_) hlists
    · rw [List.map_map, List.map_inj_left] at hmap
      exact ⟨ns i, (hmap i (List.mem_finRange i)).symm, hvalues i⟩
    · obtain ⟨n, -, rfl⟩ := List.mem_map.mp hm
      exact n.not_mem_bytes (by decide)
  · intro h
    choose ns hbytes hvalues using h
    refine ⟨ns, ?_, hvalues⟩
    simp only [List.map_map, Function.comp_def, hbytes]

theorem replies_getvalues (cb : Callbacks) {s : Server conf ShellState} {rest : List UInt8}
    (h : Quoted (cstr (s.buf.read 0 conf.linelen)) (ascii "getvalues") rest) :
    s.replies (shell cb).toShell = replyTexts (valuesReply (cb.get s.shell).values) := by
  refine congrArg (fun r : List ShellCall × ShellState => replyTexts r.1)
    (show shellInput cb _ _ = (valuesReply (cb.get s.shell).values, cb.get s.shell) from ?_)
  simp only [shellInput, h.afterChar (zero_not_mem_cstr _), deref]
  rw [strncmpEq_of_isPrefix (List.prefix_append ..) (by decide) (by decide), if_pos (by decide)]

theorem shellInput_setvalues (cb : Callbacks) {s : Server conf ShellState} {ns : Fin 8 → Numeral}
    (h : Sets (cstr (s.buf.read 0 conf.linelen)) ns) :
    ∃ u : ShellState, (u.values = fun i => UInt16.ofInt (ns i).value) ∧
      (s.shellInput (shell cb).toShell).shell = cb.set u ∧
      s.replies (shell cb).toShell = replyTexts okReply := by
  obtain ⟨u, hvalues, hinput⟩ := h.shellInput cb (zero_not_mem_cstr _) s.shell
  exact ⟨u, hvalues,
    (Server.shellInput_lineSteps (shell cb) s).1.trans (congrArg Prod.snd hinput),
    congrArg (fun r : List ShellCall × ShellState => replyTexts r.1) hinput⟩

/-- The state after `s` has sent its queue, as far as it fits in a segment, and has the segment
acknowledged and another line in its buffer. -/
def acknowledged (mss : Nat) (buf : Mem) (s : Server conf ShellState) : Server conf ShellState :=
  { (s.senddata mss).1.acked with buf }

theorem acknowledged_queue {s : Server conf ShellState} (h : s.Valid) {mss : Nat}
    (hfits : s.outbox.queue.flatten.length < mss) (buf : Mem) :
    (acknowledged mss buf s).Valid ∧ (acknowledged mss buf s).outbox.queue = [] ∧
      (acknowledged mss buf s).shell = s.shell := by
  obtain ⟨hsend, -⟩ := h.senddata mss
  obtain ⟨hvalid, hacked, -⟩ := hsend.sound.acked
  obtain ⟨q, hq⟩ := hvalid
  refine ⟨⟨q, hq.slots, hq.nodup, hq.count⟩, ?_, (s.senddata mss).1.acked_sameParser.shell⟩
  have hfit : fit mss (s.outbox.queue ++ []) 0 = s.outbox.queue.length :=
    fit_append (by simpa using hfits) nofun
  rw [List.append_nil] at hfit
  change (s.senddata mss).1.acked.outbox.queue = []
  rw [hacked, hsend.outbox]
  simp only [Bool.false_eq_true, ↓reduceIte, Outbox.refill, Outbox.ack, List.append_nil, hfit]
  exact List.drop_length

/-- Without callbacks, `getvalues` gives back the numbers that `setvalues` stored if and only if
they are all from 0 to 999. -/
theorem getvalues_agrees_iff (s : Server conf ShellState) (hs : s.Valid)
    (hempty : s.outbox.queue = []) (ns : Fin 8 → Numeral)
    (hset : Sets (cstr (s.buf.read 0 conf.linelen)) ns) (mss : Nat) (hmss : 19 < mss) (buf : Mem)
    (rest : List UInt8)
    (hget : Quoted (cstr (buf.read 0 conf.linelen)) (ascii "getvalues") rest) :
    let s₁ := s.shellInput (shell defaultCallbacks).toShell
    let s₂ := acknowledged mss buf s₁
    let s₃ := s₂.shellInput (shell defaultCallbacks).toShell
    (∃ ns' : Fin 8 → Numeral, s₃.outbox.queue.flatten = valuesText ns' ∧
        ∀ i, (ns' i).value = (ns i).value) ↔ ∀ i, 0 ≤ (ns i).value ∧ (ns i).value < 1000 := by
  intro s₁ s₂ s₃
  obtain ⟨u, hvalues, hshell, hok⟩ := shellInput_setvalues defaultCallbacks hset
  change s₁.shell = u at hshell
  obtain ⟨hvalid, hqueue⟩ : s₁.Valid ∧ s₁.outbox.queue = _ := hs.shellInput (shell defaultCallbacks)
  rw [hempty, hok, replyTexts_okReply, List.nil_append, List.take_of_length_le (by decide)]
    at hqueue
  clear_value s₁
  have hfits : s₁.outbox.queue.flatten.length < mss := by
    rw [hqueue]
    exact hmss
  obtain ⟨hvalid₂, hempty₂, hshell₂⟩ : s₂.Valid ∧ s₂.outbox.queue = [] ∧ s₂.shell = s₁.shell :=
    acknowledged_queue hvalid hfits buf
  have hreply := replies_getvalues defaultCallbacks (s := s₂) hget
  clear_value s₂
  rw [show defaultCallbacks.get s₂.shell = s₂.shell from rfl, hshell₂, hshell, hvalues] at hreply
  have hlen := Kind.Response.length (k := .get) ⟨fun i => UInt16.ofInt (ns i).value, rfl⟩
  obtain ⟨-, hqueue₃⟩ := hvalid₂.shellInput (shell defaultCallbacks)
  rw [hempty₂, hreply, List.nil_append, List.take_of_length_le (hlen.trans_le (by decide))]
    at hqueue₃
  rw [← valuesReply_iff fun i => (ns i).value, hqueue₃]

/-- The numbers 0 to 7. -/
def digits (i : Fin 8) : Numeral := { negatives i with spaces := 0, sign := .none }

theorem getvalues_agrees_digits :
    let s₁ := (withLine (ascii "\x7b\"setvalues\":[0,1,2,3,4,5,6,7]\x7d")).shellInput
      (shell defaultCallbacks).toShell
    let s₂ := acknowledged 536 (Mem.ofList (ascii "\x7b\"getvalues\"\x7d")) s₁
    ∃ ns : Fin 8 → Numeral,
      (s₂.shellInput (shell defaultCallbacks).toShell).outbox.queue.flatten = valuesText ns ∧
        ∀ i, (ns i).value = (digits i).value := by
  intro s₁ s₂
  have hset : Sets (cstr ((withLine (ascii "\x7b\"setvalues\":[0,1,2,3,4,5,6,7]\x7d")).buf.read 0
      conf.linelen)) digits :=
    ⟨⟨[123], [58], [125], by decide, by decide, by decide +kernel⟩, by decide⟩
  have hget : Quoted (cstr ((Mem.ofList (ascii "\x7b\"getvalues\"\x7d")).read 0 conf.linelen))
      (ascii "getvalues") [125] := ⟨[123], by decide, by decide, by decide +kernel⟩
  exact (getvalues_agrees_iff _ ⟨[], Slots.holds_empty, .nil, by decide⟩ rfl digits hset 536
    (by decide) _ _ hget).mpr (by decide)

/-- The numbers 1000 and seven times 0. -/
def thousand (i : Fin 8) : Numeral :=
  if i.val = 0 then ⟨0, .none, [1, 0, 0, 0], by simp⟩ else ⟨0, .none, [0], by simp⟩

/-- The number 1000 comes back as `:00`. -/
theorem not_getvalues_agrees :
    let s := withLine (ascii "\x7b\"setvalues\":[1000,0,0,0,0,0,0,0]\x7d")
    let s₁ := s.shellInput (shell defaultCallbacks).toShell
    let s₂ := acknowledged 536 (Mem.ofList (ascii "\x7b\"getvalues\"\x7d")) s₁
    let s₃ := s₂.shellInput (shell defaultCallbacks).toShell
    Sets (cstr (s.buf.read 0 conf.linelen)) thousand ∧
      s₃.outbox.queue.flatten = ascii ("\x7b\"response\":\"OK\",\"values\":" ++
        "[:00,  0,  0,  0,  0,  0,  0,  0]\x7d\r\n") ∧
      ¬∃ ns : Fin 8 → Numeral, s₃.outbox.queue.flatten = valuesText ns ∧
        ∀ i, (ns i).value = (thousand i).value := by
  intro s s₁ s₂ s₃
  have hflat : s₃.outbox.queue.flatten =
      (replyTexts (valuesReply fun i => UInt16.ofInt (thousand i).value)).flatten := by
    decide +kernel
  refine ⟨⟨⟨[123], [58], [125], by decide, by decide, by decide +kernel⟩, by decide⟩,
    by decide +kernel, ?_⟩
  rw [hflat, valuesReply_iff fun i => (thousand i).value]
  decide

end Jsoncmd

end OpenPLC
