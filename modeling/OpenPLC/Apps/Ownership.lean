import Mathlib.Data.Fintype.Card
import OpenPLC.Apps.Steps
import OpenPLC.Lib.Outbox

/-! Ownership of the pool of lines.  While a connection is open, the lines in use are exactly those
in the slots; from its close on, the lines in use are at least all in slots. -/

namespace OpenPLC

open Lib

namespace Slots

variable {n : Nat} {q q' : Slots n} {line : Fin n}

/-- The slots hold exactly the lines `ls`, in order, and NULL after them. -/
def Holds (q : Slots n) (ls : List (Fin n)) : Prop :=
  q.val = ls.map some ++ List.replicate (n - ls.length) none

theorem holds_empty : (empty : Slots n).Holds [] := by simp [Holds, empty]

theorem Holds.length_le {ls : List (Fin n)} (h : q.Holds ls) : ls.length ≤ n := by
  have := congrArg List.length h
  rw [q.length_eq] at this
  simp at this
  omega

theorem Holds.push {ls : List (Fin n)} (line : Fin n) (h : q.Holds ls) (hlt : ls.length < n) :
    ∃ q', q.push line = some q' ∧ q'.Holds (ls ++ [line]) := by
  have hrep : List.replicate (n - ls.length) (none : Option (Fin n)) =
      none :: List.replicate (n - (ls.length + 1)) none := by
    rw [← List.replicate_succ]
    congr 1
    omega
  have hval : q.val = ls.map some ++ none :: List.replicate (n - (ls.length + 1)) none := by
    rw [← hrep]
    exact h
  have hidx : q.val.findIdx? Option.isNone = some ls.length := by
    rw [hval, List.findIdx?_append, List.findIdx?_eq_none_iff.mpr (by simp), List.findIdx?_cons]
    simp
  refine ⟨⟨q.val.set ls.length (some line), by simp [q.length_eq]⟩, ?_, ?_⟩
  · simp [Slots.push, hidx]
  · simp [Holds, hval]

/-- There is an empty slot for a line unless the slots hold lines only. -/
theorem Holds.push_cases {ls : List (Fin n)} (line : Fin n) (h : q.Holds ls) :
    (∃ q', q.push line = some q' ∧ q'.Holds (ls ++ [line])) ∨
      q.push line = none ∧ ls.length = n := by
  rcases h.length_le.lt_or_eq with hlt | heq
  · exact .inl (h.push line hlt)
  · have hval : q.val = ls.map some := by simpa [heq] using show q.val = _ from h
    have hidx : q.val.findIdx? Option.isNone = none := by
      rw [hval, List.findIdx?_eq_none_iff]
      simp
    exact .inr ⟨by simp [Slots.push, hidx], heq⟩

theorem Holds.shift {ls : List (Fin n)} (h : q.Holds ls) : q.shift.Holds ls.tail := by
  have hle := h.length_le
  cases ls with
  | nil =>
    have hval : q.val = List.replicate n none := by simpa [Holds] using h
    simp only [Holds, Slots.shift, hval, ← List.replicate_succ', List.replicate_succ,
      List.tail_cons]
    simp
  | cons b ls =>
    simp only [List.length_cons] at hle
    have hval : q.val = some b :: (ls.map some ++ List.replicate (n - (ls.length + 1)) none) := by
      simpa [Holds] using h
    simp only [Holds, Slots.shift, hval, List.cons_append, List.tail_cons, List.append_assoc,
      ← List.replicate_succ']
    rw [show n - (ls.length + 1) + 1 = n - ls.length by omega]

/-- The slots that are empty are those after the lines. -/
theorem Holds.count_none {ls : List (Fin n)} (h : q.Holds ls) :
    q.val.count none = n - ls.length := by
  rw [show q.val = _ from h, List.count_append, List.count_replicate_self,
    List.count_eq_zero.mpr (by simp), Nat.zero_add]

theorem Holds.head? {ls : List (Fin n)} {b : Fin n} (h : q.Holds (b :: ls)) :
    q.val.head? = some (some b) := by
  rw [show q.val = _ from h]
  rfl

theorem mem_push (h : q.push line = some q') {b : Fin n} :
    some b ∈ q'.val ↔ b = line ∨ some b ∈ q.val := by
  simp only [push] at h
  split at h
  · next i hi =>
    obtain rfl := Option.some.inj h
    obtain ⟨hlt, hnone, -⟩ := List.findIdx?_eq_some_iff_getElem.mp hi
    have hi' : q.val[i] = none := by simpa using hnone
    have hsplit : q.val = q.val.take i ++ none :: q.val.drop (i + 1) := by
      rw [← hi', ← List.drop_eq_getElem_cons hlt, List.take_append_drop]
    simp only [List.set_eq_take_append_cons_drop, hlt, ↓reduceIte]
    conv_rhs => rw [hsplit]
    simp only [List.mem_append, List.mem_cons, Option.some.injEq, reduceCtorEq, false_or]
    tauto
  · cases h

theorem push_eq_none (h : q.push line = none) : none ∉ q.val := by
  simp only [push] at h
  split at h
  · cases h
  · next hf => exact fun hn => by simpa using List.findIdx?_eq_none_iff.mp hf none hn

end Slots

namespace Server

variable {K : Conf} {σ : Type*} {Q : Prop} {s t u : Server K σ} {q ext : List (Fin K.numlines)}

/-- The lines in use are `q`, each in one slot, in order. -/
structure Owned (s : Server K σ) (q : List (Fin K.numlines)) : Prop where
  slots : s.lines.Holds q
  nodup : q.Nodup
  count : ∀ b, s.linemem.count b = if b ∈ q then 1 else 0

/-- Every line in use has one reference and is in a slot. -/
structure Weak (s : Server K σ) : Prop where
  le_one : ∀ b, s.linemem.count b ≤ 1
  queued : ∀ b, s.linemem.count b ≠ 0 → some b ∈ s.lines.val

/-- From `s` to `t` the server queues the texts `qs`, removes the groups of texts `as`, and has a
slot for every line. -/
def Emits (s t : Server K σ) (qs : List (List UInt8)) (as : List (List (List UInt8))) : Prop :=
  ∃ es, t.trace = s.trace ++ es ∧ es.filterMap Obs.queued? = qs ∧ es.filterMap Obs.acked? = as ∧
    Obs.overflow ∉ es

/-- From `s`, whose lines are `q`, to `t`, with the lines `ext` after them. -/
structure Grows (s t : Server K σ) (q ext : List (Fin K.numlines)) : Prop where
  owned : Owned t (q ++ ext)
  numsent : t.numsent = s.numsent
  text : ∀ b ∈ q, t.text b = s.text b
  emits : Emits s t (ext.map t.text) []

theorem emits_self (s : Server K σ) : Emits s s [] [] := ⟨[], by simp⟩

theorem emits_log (s : Server K σ) {e : Obs K.numlines} (h : Obs.overflow ≠ e) :
    Emits s (s.log e) e.queued?.toList e.acked?.toList :=
  ⟨[e], rfl, by cases e <;> rfl, by cases e <;> rfl, by simpa using h⟩

theorem Emits.trans {qs qs' : List (List UInt8)} {as as' : List (List (List UInt8))}
    (h : Emits s t qs as) (h' : Emits t u qs' as') : Emits s u (qs ++ qs') (as ++ as') := by
  obtain ⟨es, ht, rfl, rfl, ho⟩ := h
  obtain ⟨es', ht', rfl, rfl, ho'⟩ := h'
  exact ⟨es ++ es', by rw [ht', ht, List.append_assoc], by simp, by simp, by simp [ho, ho']⟩

theorem Owned.weak (h : Owned s q) : Weak s where
  le_one b := by
    rw [h.count]
    split <;> omega
  queued b hb := by
    have hq : b ∈ q := by
      by_contra hn
      exact hb (by rw [h.count, if_neg hn])
    rw [show s.lines.val = _ from h.slots]
    simp [hq]

theorem Owned.grows_of_eq (h : Owned s q) (hm : t.linemem = s.linemem) (hl : t.lines = s.lines)
    (hn : t.numsent = s.numsent) (he : Emits s t [] []) : Grows s t q [] where
  owned := by simpa using ⟨hl ▸ h.slots, h.nodup, hm ▸ h.count⟩
  numsent := hn
  text b _ := by simp only [text, hm]
  emits := he

theorem Grows.trans {ext' : List (Fin K.numlines)} (h : Grows s t q ext)
    (h' : Grows t u (q ++ ext) ext') : Grows s u q (ext ++ ext') where
  owned := by simpa using h'.owned
  numsent := h'.numsent.trans h.numsent
  text b hb := (h'.text b (by simp [hb])).trans (h.text b hb)
  emits := by
    have htext : ext.map t.text = ext.map u.text :=
      List.map_congr_left fun b hb => (h'.text b (by simp [hb])).symm
    simpa [htext] using h.emits.trans h'.emits

/-- A line that was free goes to the first free slot. -/
theorem Owned.grows_put (h : Owned s q) {line : Fin K.numlines} {m : Memb K.linelen K.numlines}
    (hfree : s.linemem.count line = 0)
    (hcount : m.count = Function.update s.linemem.count line 1)
    (hmem : ∀ b ≠ line, m.mem b = s.linemem.mem b) :
    Grows s ({ s with linemem := m }.sendline line) q [line] := by
  have hnot : line ∉ q := by
    intro hin
    rw [h.count, if_pos hin] at hfree
    cases hfree
  have hnodup : (q ++ [line]).Nodup := by
    rw [List.nodup_append_comm]
    simp [hnot, h.nodup]
  have hlt : q.length < K.numlines := by
    have hcard := hnodup.length_le_card
    rw [Fintype.card_fin, List.length_append, List.length_singleton] at hcard
    exact hcard
  obtain ⟨lines, hpush, hholds⟩ := h.slots.push line hlt
  have htext (b : Fin K.numlines) (hb : b ∈ q) : (m.mem b).text = (s.linemem.mem b).text := by
    have hne : b ≠ line := fun h => hnot (h ▸ hb)
    rw [hmem b hne]
  simp only [sendline, hpush]
  refine ⟨⟨hholds, hnodup, fun b => ?_⟩, rfl, htext, emits_log _ (by simp)⟩
  simp only [log, hcount, List.mem_append, List.mem_singleton]
  by_cases hb : b = line
  · simp [hb]
  · simp [hb, h.count]

theorem Owned.step (h : Owned s q) (hs : Step Q s t) : ∃ ext, Grows s t q ext := by
  cases hs with
  | line hs =>
    cases hs with
    | put line m halloc hcount hmem =>
      obtain ⟨_, halloc⟩ := halloc
      exact ⟨[line], h.grows_put (Memb.alloc_eq_some halloc).1 hcount hmem⟩
    | quit => exact ⟨[], h.grows_of_eq rfl rfl rfl ⟨[], by simp [shellQuit]⟩⟩
    | drop => exact ⟨[], h.grows_of_eq rfl rfl rfl (emits_log s nofun)⟩
  | parse => exact ⟨[], h.grows_of_eq rfl rfl rfl ⟨[], by simp⟩⟩
  | input => exact ⟨[], h.grows_of_eq rfl rfl rfl (emits_log s nofun)⟩

theorem Owned.steps (h : Owned s q) (hs : Steps Q s t) : ∃ ext, Grows s t q ext := by
  induction hs with
  | refl => exact ⟨[], h.grows_of_eq rfl rfl rfl s.emits_self⟩
  | tail _ hstep ih =>
    obtain ⟨ext, hg⟩ := ih
    obtain ⟨ext', hg'⟩ := hg.owned.step hstep
    exact ⟨ext ++ ext', hg.trans hg'⟩

theorem texts_map_some (s : Server K σ) (q : List (Fin K.numlines)) :
    s.texts (q.map some) = q.map s.text := by
  simp only [texts, List.filterMap_map, Function.comp_def, Option.map_some]
  rw [← List.filterMap_eq_map']

theorem Owned.texts_take (h : Owned s q) {n : Nat} (hn : n ≤ q.length) :
    s.texts (s.lines.val.take n) = (q.take n).map s.text := by
  rw [show s.lines.val = _ from h.slots, List.take_append_of_le_length (by simpa using hn),
    ← List.map_take, texts_map_some]

theorem Owned.ackLine {b : Fin K.numlines} (h : Owned s (b :: q)) : Owned s.ackLine q where
  slots := by
    simp only [Server.ackLine, h.slots.head?]
    exact h.slots.shift
  nodup := h.nodup.of_cons
  count c := by
    have hb : b ∉ q := List.Nodup.notMem h.nodup
    simp only [Server.ackLine, h.slots.head?, deallocLine, Memb.free_count]
    by_cases hc : c = b
    · simp [hc, hb, h.count]
    · simp [hc, h.count]

theorem ackLine_text (s : Server K σ) : s.ackLine.text = s.text := by
  funext b
  simp only [Server.ackLine]
  split <;> simp [deallocLine, text]

theorem ackLine_numsent (s : Server K σ) : s.ackLine.numsent = s.numsent - 1 := by
  simp only [Server.ackLine]
  split <;> rfl

theorem deallocLine_emits (s : Server K σ) (line : Fin K.numlines) :
    Emits s (s.deallocLine line) [] [] := by
  refine ⟨_, rfl, ?_⟩
  split <;> simp [Obs.queued?, Obs.acked?]

theorem ackLine_emits (s : Server K σ) : Emits s s.ackLine [] [] := by
  simp only [Server.ackLine]
  split
  · next b _ => exact s.deallocLine_emits b
  · exact s.emits_self

theorem Owned.ackLines {n : Nat} (h : Owned s q) (hn : n ≤ q.length) (hs : s.numsent = n) :
    Owned (ackLines n s) (q.drop n) ∧ (ackLines n s).numsent = 0 ∧
      (ackLines n s).text = s.text ∧ Emits s (ackLines n s) [] [] := by
  induction n generalizing s q with
  | zero => exact ⟨h, hs, rfl, s.emits_self⟩
  | succ n ih =>
    obtain ⟨b, q, rfl⟩ := List.exists_cons_of_length_pos (Nat.lt_of_lt_of_le n.succ_pos hn)
    obtain ⟨ho, hz, ht, he⟩ := ih h.ackLine (by simpa using hn) (by rw [ackLine_numsent, hs]; rfl)
    exact ⟨ho, hz, ht.trans s.ackLine_text, s.ackLine_emits.trans he⟩

/-- `acked` removes the first `numsent` lines and frees them. -/
theorem Owned.acked (h : Owned s q) (hn : s.numsent ≤ q.length) :
    Owned s.acked (q.drop s.numsent) ∧ s.acked.numsent = 0 ∧ s.acked.text = s.text ∧
      Emits s s.acked [] [(q.take s.numsent).map s.text] := by
  have hlog : Owned (s.log (.acked (s.texts (s.lines.val.take s.numsent)))) q :=
    ⟨h.slots, h.nodup, h.count⟩
  obtain ⟨ho, hz, ht, he⟩ := hlog.ackLines hn rfl
  refine ⟨ho, hz, ht, ?_⟩
  rw [← h.texts_take hn]
  exact (emits_log s (e := .acked (s.texts (s.lines.val.take s.numsent))) nofun).trans he

/-! ### Room in the pool -/

theorem Emits.queuedTexts {qs : List (List UInt8)} {as : List (List (List UInt8))}
    (h : Emits s t qs as) : t.queuedTexts = s.queuedTexts ++ qs := by
  obtain ⟨es, ht, hq, -, -⟩ := h
  rw [Server.queuedTexts, ht, List.filterMap_append, hq]
  rfl

/-- The free blocks are those that no slot holds. -/
theorem Owned.numFree (h : Owned s q) : s.linemem.numFree = K.numlines - q.length := by
  have hlen := h.slots.length_le
  have hq : ((List.finRange K.numlines).filter fun b => decide (b ∈ q)).length = q.length := by
    refine List.Perm.length_eq ((List.perm_ext_iff_of_nodup ?_ h.nodup).mpr fun b => by simp)
    exact (List.nodup_finRange _).filter _
  have hsum := List.length_eq_countP_add_countP (fun b => decide (b ∈ q))
    (l := List.finRange K.numlines)
  rw [← List.countP_eq_length_filter] at hq
  rw [List.length_finRange, hq] at hsum
  have hfree : s.linemem.numFree =
      (List.finRange K.numlines).countP fun b => !decide (b ∈ q) := by
    refine List.countP_congr fun b _ => ?_
    by_cases hb : b ∈ q <;> simp [h.count, hb]
  simp only [Bool.not_eq_true, decide_eq_false_iff_not] at hsum
  rw [hfree]
  simp only [← decide_not]
  omega

/-- The number of empty slots. -/
def numEmpty (s : Server K σ) : Nat := s.lines.val.count none

/-- The empty slots come after all others, and there is a free block for each. -/
structure Vacant (s : Server K σ) : Prop where
  slots : ∃ ls, s.lines.Holds ls
  free : s.numEmpty ≤ s.linemem.numFree

/-- From `s` to `t` the server queues as many of some texts as there are empty slots.  Every other
one is lost for want of a block or of a slot. -/
structure Enqueues (s t : Server K σ) (texts : List (List UInt8)) : Prop where
  vacant : Vacant t
  numEmpty : t.numEmpty = s.numEmpty - texts.length
  events : ∃ es, t.trace = s.trace ++ es ∧ es.filterMap Obs.queued? = texts.take s.numEmpty ∧
    (s.numEmpty < texts.length → Obs.dropped ∈ es ∨ Obs.overflow ∈ es)

theorem Owned.vacant (h : Owned s q) : Vacant s where
  slots := ⟨q, h.slots⟩
  free := by rw [Server.numEmpty, h.slots.count_none, h.numFree]

theorem Vacant.of_allFree {ls : List (Fin K.numlines)} (h : s.lines.Holds ls)
    (hfree : s.linemem.AllFree) : Vacant s where
  slots := ⟨ls, h⟩
  free := by
    rw [Server.numEmpty, h.count_none, Memb.numFree_of_allFree hfree]
    exact Nat.sub_le ..

theorem Vacant.enqueues_of_eq (h : Vacant s) (hm : t.linemem = s.linemem) (hl : t.lines = s.lines)
    (he : Emits s t [] []) : Enqueues s t [] := by
  have hempty : t.numEmpty = s.numEmpty := by rw [Server.numEmpty, hl, Server.numEmpty]
  obtain ⟨es, htrace, hqueued, -, -⟩ := he
  refine ⟨⟨hl ▸ h.slots, hempty ▸ hm ▸ h.free⟩, hempty, es, htrace, by simpa using hqueued, ?_⟩
  exact fun hlt => absurd hlt (Nat.not_lt_zero _)

theorem Enqueues.trans {texts texts' : List (List UInt8)} (h : Enqueues s t texts)
    (h' : Enqueues t u texts') : Enqueues s u (texts ++ texts') := by
  obtain ⟨es, htrace, hqueued, hlost⟩ := h.events
  obtain ⟨es', htrace', hqueued', hlost'⟩ := h'.events
  rw [h.numEmpty] at hqueued' hlost'
  refine ⟨h'.vacant, ?_, es ++ es', ?_, ?_, fun hlt => ?_⟩
  · rw [h'.numEmpty, h.numEmpty, List.length_append, Nat.sub_sub]
  · rw [htrace', htrace, List.append_assoc]
  · rw [List.filterMap_append, hqueued, hqueued', List.take_append]
  · rw [List.length_append] at hlt
    simp only [List.mem_append]
    by_cases hfits : s.numEmpty < texts.length
    · exact (hlost hfits).imp .inl .inl
    · exact (hlost' (by omega)).imp .inr .inr

theorem Enqueues.queuedTexts {texts : List (List UInt8)} (h : Enqueues s t texts) :
    t.queuedTexts = s.queuedTexts ++ texts.take s.numEmpty := by
  obtain ⟨es, htrace, hqueued, -⟩ := h.events
  rw [Server.queuedTexts, htrace, List.filterMap_append, hqueued]
  rfl

/-- A line is queued if there is an empty slot, and lost else. -/
theorem Vacant.lineStep {text : Option (List UInt8)} (h : Vacant s) (hs : LineStep Q s text t) :
    Enqueues s t text.toList := by
  cases hs with
  | quit => exact h.enqueues_of_eq rfl rfl ⟨[], by simp [shellQuit]⟩
  | drop hnone =>
    have hzero : s.linemem.numFree = 0 := by
      simpa [Memb.numFree] using fun b => Memb.alloc_eq_none hnone b
    have hempty : s.numEmpty = 0 := Nat.le_zero.mp (hzero ▸ h.free)
    refine ⟨⟨h.slots, h.free⟩, ?_, [.dropped], rfl, ?_, fun _ => .inl (by simp)⟩
    · exact hempty.trans (by rw [hempty, Nat.zero_sub])
    · rw [hempty]
      rfl
  | put line m halloc hcount hmem =>
    obtain ⟨_, halloc⟩ := halloc
    obtain ⟨ls, hls⟩ := h.slots
    have hfree := Memb.numFree_update (Memb.alloc_eq_some halloc).1 hcount
    have hempty : s.numEmpty = K.numlines - ls.length := hls.count_none
    have hle := h.free
    simp only [sendline]
    rcases hls.push_cases line with ⟨lines, hpush, hholds⟩ | ⟨hpush, hlen⟩
    · have hlen := hholds.length_le
      have hempty' := hholds.count_none
      rw [List.length_append, List.length_singleton] at hlen hempty'
      obtain ⟨r, hr⟩ : ∃ r, s.numEmpty = r + 1 := ⟨s.numEmpty - 1, by omega⟩
      simp only [hpush]
      refine ⟨⟨⟨_, hholds⟩, ?_⟩, ?_, [.queued (m.mem line).text], rfl, ?_, fun hlt => ?_⟩
      · change lines.val.count none ≤ m.numFree
        omega
      · change lines.val.count none = s.numEmpty - 1
        omega
      · rw [hr]
        simp [Obs.queued?]
      · rw [hr] at hlt
        exact absurd hlt (by simp)
    · have hzero : s.numEmpty = 0 := by omega
      obtain ⟨es, htrace, hqueued, -, -⟩ :=
        deallocLine_emits (({ s with linemem := m } : Server K σ).log .overflow) line
      simp only [hpush]
      refine ⟨⟨⟨ls, hls⟩, ?_⟩, ?_, .overflow :: es, ?_, ?_, fun _ => .inr (by simp)⟩
      · exact (show _ = 0 from hzero).trans_le (Nat.zero_le _)
      · exact (show _ = 0 from hzero).trans (by rw [hzero, Nat.zero_sub])
      · rw [htrace]
        simp [log]
      · rw [hzero]
        simpa [Obs.queued?] using hqueued

/-- Of some lines, as many are queued as there are empty slots. -/
theorem Vacant.lineSteps {texts : List (Option (List UInt8))} (h : Vacant s)
    (hs : LineSteps Q s texts t) : Enqueues s t (texts.filterMap id) := by
  induction hs with
  | refl s => exact h.enqueues_of_eq rfl rfl s.emits_self
  | @head text texts s t u hstep _ ih =>
    have hqueues := h.lineStep hstep
    have hall := hqueues.trans (ih hqueues.vacant)
    cases text <;> simpa using hall

theorem Vacant.shellCalls (h : Vacant s) (cs : List ShellCall) :
    Enqueues s (s.shellCalls cs) (cs.filterMap (ShellCall.text K)) := by
  have hqueues := h.lineSteps (shellCalls_steps (Q := True) s (fun _ : .quit ∈ cs => trivial))
  rwa [List.filterMap_map] at hqueues

/-- The texts of the lines for the command in the buffer. -/
def replies (sh : Shell σ) (s : Server K σ) : List (List UInt8) :=
  (sh.input (cstr (s.buf.read 0 K.linelen)) s.shell).1.filterMap (ShellCall.text K)

/-- A command queues as many lines of its reply as there are empty slots. -/
theorem Vacant.shellInput (sh : Shell σ) (h : Vacant s) :
    Enqueues s (s.shellInput sh) (s.replies sh) := by
  set s₁ : Server K σ :=
    { s with shell := (sh.input (cstr (s.buf.read 0 K.linelen)) s.shell).2 }.log
      (.shellInput (s.buf.read 0 K.linelen) s.linemem.numFree) with hs₁
  have hlog : Enqueues s s₁ [] :=
    h.enqueues_of_eq rfl rfl ⟨[.shellInput (s.buf.read 0 K.linelen) s.linemem.numFree], by
      simp [hs₁, log, Obs.queued?, Obs.acked?]⟩
  exact hlog.trans (hlog.vacant.shellCalls _)

/-! ### The queue as an outbox -/

/-- The queue: the texts of its lines, and how many of them the last segment holds. -/
def outbox (s : Server K σ) : Outbox UInt8 := ⟨s.texts s.lines.val, s.numsent⟩

theorem Owned.outbox_queue (h : Owned s q) : s.outbox.queue = q.map s.text := by
  rw [outbox, show s.lines.val = _ from h.slots, ← s.texts_map_some q]
  simp [texts]

theorem fill_some (s : Server K σ) (mss : Nat) (b : Fin K.numlines)
    (ls : List (Option (Fin K.numlines))) (buflen : Nat) :
    s.fill mss (some b :: ls) buflen =
      if buflen + (s.text b).length < mss then
        ((s.fill mss ls (buflen + (s.text b).length)).1 + 1,
          s.text b ++ (s.fill mss ls (buflen + (s.text b).length)).2)
      else (0, []) := by
  have hlen : (if s.linemem.strlen b > K.linelen then K.linelen else s.linemem.strlen b) =
      min (s.linemem.strlen b) K.linelen := by
    split <;> omega
  simp only [fill, hlen, Memb.take_strlen]
  simp only [Memb.min_strlen]
  rfl

/-- The texts of the lines before the first slot that is NULL. -/
def queued (s : Server K σ) (ls : List (Option (Fin K.numlines))) : List (List UInt8) :=
  s.texts (ls.takeWhile Option.isSome)

theorem queued_cons_some (s : Server K σ) (b : Fin K.numlines)
    (ls : List (Option (Fin K.numlines))) : s.queued (some b :: ls) = s.text b :: s.queued ls := rfl

theorem queued_map_some (s : Server K σ) (q : List (Fin K.numlines)) (k : Nat) :
    s.queued (q.map some ++ List.replicate k none) = q.map s.text := by
  induction q with
  | nil => cases k <;> rfl
  | cons b q ih => rw [List.map_cons, List.cons_append, queued_cons_some, ih, List.map_cons]

/-- The loop of `senddata` takes the lines that fit. -/
theorem fill_eq (s : Server K σ) (mss : Nat) (ls : List (Option (Fin K.numlines))) (buflen : Nat) :
    s.fill mss ls buflen =
      (fit mss (s.queued ls) buflen,
        ((s.queued ls).take (fit mss (s.queued ls) buflen)).flatten) := by
  induction ls generalizing buflen with
  | nil => rfl
  | cons l ls ih =>
    cases l with
    | none => rfl
    | some b =>
      simp only [queued_cons_some, fill_some, fit]
      split
      · rw [ih]
        rfl
      · rfl

theorem Owned.senddata (h : Owned s q) (mss : Nat) :
    s.senddata mss =
      ({ s with numsent := fit mss s.outbox.queue 0 },
        (s.outbox.queue.take (fit mss s.outbox.queue 0)).flatten) := by
  rw [Server.senddata, show s.lines.val = _ from h.slots, fill_eq, queued_map_some, h.outbox_queue]

/-- The lines in use are those in the slots. -/
def Valid (s : Server K σ) : Prop := ∃ q, Owned s q

/-- The state of the server between calls while its connection is open: `acked` removes no more
lines than there are. -/
structure Sound (s : Server K σ) : Prop where
  valid : Valid s
  sent_le : s.outbox.sent ≤ s.outbox.queue.length

/-- A call on an open connection handles an acknowledgment, queues the texts `new`, and fills a
segment. -/
structure Handles (s t : Server K σ) (acked : Bool) (mss : Nat) (new : List (List UInt8)) :
    Prop where
  sound : Sound t
  outbox : t.outbox = (if acked then s.outbox.ack else s.outbox).refill mss new
  emits : Emits s t new (if acked then [s.outbox.queue.take s.outbox.sent] else [])

theorem Sound.acked (h : Sound s) :
    Valid s.acked ∧ s.acked.outbox = s.outbox.ack ∧
      Emits s s.acked [] [s.outbox.queue.take s.outbox.sent] := by
  obtain ⟨⟨q, hq⟩, hn⟩ := h
  obtain ⟨ho, hz, ht, he⟩ := hq.acked (by rwa [hq.outbox_queue, List.length_map] at hn)
  have hout : s.acked.outbox = s.outbox.ack := by
    have hqueue : s.acked.outbox.queue = s.outbox.queue.drop s.numsent := by
      rw [ho.outbox_queue, ht, hq.outbox_queue, List.map_drop]
    simp only [Outbox.ack, ← hz]
    exact congrArg (Outbox.mk · _) hqueue
  refine ⟨⟨_, ho⟩, hout, ?_⟩
  rw [hq.outbox_queue, ← List.map_take]
  exact he

theorem Grows.outbox (hs : Owned s q) (h : Grows s t q ext) :
    t.outbox = ⟨s.outbox.queue ++ ext.map t.text, s.outbox.sent⟩ := by
  have hqueue : t.outbox.queue = s.outbox.queue ++ ext.map t.text := by
    rw [h.owned.outbox_queue, hs.outbox_queue, List.map_append, List.map_congr_left h.text]
  simp only [← hqueue]
  exact congrArg (Outbox.mk _) h.numsent

theorem Valid.steps (h : Valid s) (hs : Steps Q s t) :
    Valid t ∧ ∃ new, t.outbox = ⟨s.outbox.queue ++ new, s.outbox.sent⟩ ∧ Emits s t new [] := by
  obtain ⟨q, hq⟩ := h
  obtain ⟨ext, hg⟩ := hq.steps hs
  exact ⟨⟨q ++ ext, hg.owned⟩, ext.map t.text, hg.outbox hq, hg.emits⟩

theorem Valid.shellInput (sh : QuietShell σ) (h : Valid s) :
    Valid (s.shellInput sh.toShell) ∧ (s.shellInput sh.toShell).outbox.queue =
      s.outbox.queue ++ (s.replies sh.toShell).take (K.numlines - s.outbox.queue.length) := by
  have hsteps : Steps True s (s.shellInput sh.toShell) := shellInput_steps (fun _ _ _ => trivial) s
  obtain ⟨hvalid, new, hout, hemits⟩ := h.steps hsteps
  obtain ⟨q, hq⟩ := h
  have htexts := (hq.vacant.shellInput sh.toShell).queuedTexts
  rw [hemits.queuedTexts] at htexts
  refine ⟨hvalid, ?_⟩
  rw [hout, List.append_cancel_left htexts, numEmpty, hq.slots.count_none, hq.outbox_queue,
    List.length_map]

/-- `senddata` fills a segment from the queue. -/
theorem Valid.senddata (h : Valid s) (mss : Nat) :
    Handles s (s.senddata mss).1 false mss [] ∧
      (s.senddata mss).2 = (s.senddata mss).1.outbox.segment := by
  obtain ⟨q, hq⟩ := h
  rw [hq.senddata mss]
  refine ⟨⟨⟨⟨q, hq.slots, hq.nodup, hq.count⟩, fit_le_length ..⟩, ?_, s.emits_self⟩, rfl⟩
  simp only [Bool.false_eq_true, ↓reduceIte, Outbox.refill, List.append_nil]
  rfl

theorem Valid.handle (sh : Shell σ) (call : Call) (h : Valid s) (hopen : ¬call.Closing)
    (hsends : call.Sends) (hacked : call.acked → s.outbox.sent ≤ s.outbox.queue.length) :
    ∃ new, Handles s (s.handle sh call).1 call.acked call.mss new ∧
      (s.handle sh call).2 = { send := some (s.handle sh call).1.outbox.segment } ∧
      (call.newdata = false → new = []) := by
  simp only [Server.handle, hopen, hsends, ↓reduceIte]
  set s1 := if call.acked then s.acked else s with hs1
  have h1 : Valid s1 ∧ s1.outbox = (if call.acked then s.outbox.ack else s.outbox) ∧
      Emits s s1 [] (if call.acked then [s.outbox.queue.take s.outbox.sent] else []) := by
    rw [hs1]
    cases hc : call.acked
    · exact ⟨h, rfl, s.emits_self⟩
    · exact Sound.acked ⟨h, hacked hc⟩
  set s2 := if call.newdata then (s1.newdata sh call.data).1 else s1 with hs2
  have h2 : Valid s2 ∧ ∃ new, s2.outbox = ⟨s1.outbox.queue ++ new, s1.outbox.sent⟩ ∧
      Emits s1 s2 new [] ∧ (call.newdata = false → new = []) := by
    rw [hs2]
    cases call.newdata
    · exact ⟨h1.1, [], by simp, s1.emits_self, fun _ => rfl⟩
    · obtain ⟨hs, new, ho, he⟩ :=
        h1.1.steps (newdata_steps sh (fun _ _ _ => True.intro) call.data s1)
      exact ⟨hs, new, ho, he, (by simp)⟩
  obtain ⟨hsound, new, hout, hemits, hnew⟩ := h2
  obtain ⟨hsend, hseg⟩ := hsound.senddata call.mss
  refine ⟨new, ⟨hsend.sound, ?_, ?_⟩, by rw [hseg], hnew⟩
  · have := hsend.outbox
    simp only [Bool.false_eq_true, ↓reduceIte, Outbox.refill, List.append_nil] at this
    rw [this, hout, ← h1.2.1]
    rfl
  · simpa using h1.2.2.trans (hemits.trans hsend.emits)

theorem Sound.handle (sh : Shell σ) (call : Call) (h : Sound s) (hopen : ¬call.Closing)
    (hsends : call.Sends) :
    ∃ new, Handles s (s.handle sh call).1 call.acked call.mss new ∧
      (s.handle sh call).2 = { send := some (s.handle sh call).1.outbox.segment } ∧
      (call.newdata = false → new = []) :=
  h.valid.handle sh call hopen hsends fun _ => h.sent_le

/-- At the start of a connection no slot holds a line. -/
theorem valid_of_allFree (h : s.linemem.AllFree) :
    Valid { s with lines := .empty, bufptr := 0, state := .normal } :=
  ⟨[], Slots.holds_empty, List.nodup_nil, fun b => by simpa using h b⟩

/-- The call for a new connection, when the pool is free and the shell does not ask for the
close. -/
theorem appcall_connected (sh : Shell σ) (call : Call) (h : s.linemem.AllFree)
    (hquit : .quit ∉ sh.start) (hconn : call.connected) (hopen : ¬call.Closing)
    (hacked : call.acked = false) :
    ∃ new, Sound (s.appcall sh call).1 ∧
      (s.appcall sh call).1.outbox = (⟨[], 0⟩ : Outbox UInt8).refill call.mss new ∧
      Emits s (s.appcall sh call).1 new [] ∧
      (s.appcall sh call).2 = { send := some (s.appcall sh call).1.outbox.segment } := by
  have hsteps := (s.connected_steps (Q := False) hquit).steps
  obtain ⟨h1, new, hout, hemits⟩ := (valid_of_allFree h).steps hsteps
  have hstate : (s.connected sh).state ≠ .close := hsteps.state_ne_close nofun
  obtain ⟨new', hh, hreply, -⟩ :=
    h1.handle sh call hopen (.inr (.inr (.inr (.inl hconn)))) (by simp [hacked])
  simp only [appcall, hconn, hstate, ↓reduceIte]
  refine ⟨new ++ new', hh.sound, ?_, ?_, hreply⟩
  · rw [hh.outbox, hout, hacked]
    simp [Outbox.refill, Server.outbox, texts, Slots.empty]
  · have hlog : Emits s { s with lines := .empty, bufptr := 0, state := .normal } [] [] :=
      ⟨[], by simp⟩
    simpa [hacked] using hlog.trans (hemits.trans hh.emits)

/-! ### After the close -/

theorem foldl_deallocLine_count (ls : List (Fin K.numlines)) (s : Server K σ)
    (b : Fin K.numlines) :
    (ls.foldl deallocLine s).linemem.count b = s.linemem.count b - ls.count b := by
  induction ls generalizing s with
  | nil => rfl
  | cons l ls ih =>
    rw [List.foldl_cons, ih, List.count_cons]
    simp only [deallocLine, Memb.free_count, Function.update_apply]
    by_cases hb : b = l
    · simp only [hb, beq_self_eq_true, ↓reduceIte]
      omega
    · simp [hb, Ne.symm hb]

theorem deallocLine_count_le (s : Server K σ) (line b : Fin K.numlines) :
    (s.deallocLine line).linemem.count b ≤ s.linemem.count b :=
  (foldl_deallocLine_count [line] s b).trans_le (Nat.sub_le ..)

theorem closed_count (s : Server K σ) (b : Fin K.numlines) :
    s.closed.linemem.count b = s.linemem.count b - (s.lines.val.filterMap id).count b :=
  foldl_deallocLine_count ..

theorem count_slots_pos {s : Server K σ} {b : Fin K.numlines} (h : some b ∈ s.lines.val) :
    0 < (s.lines.val.filterMap id).count b :=
  List.count_pos_iff.mpr (by simpa using h)

@[simp] theorem foldl_deallocLine_lines (ls : List (Fin K.numlines)) (s : Server K σ) :
    (ls.foldl deallocLine s).lines = s.lines := by
  induction ls generalizing s with
  | nil => rfl
  | cons l ls ih => exact ih (s.deallocLine l)

/-- `closed` frees every line in use. -/
theorem Weak.closed (h : Weak s) : s.closed.linemem.AllFree := by
  intro b
  by_cases hb : s.linemem.count b = 0
  · rw [closed_count, hb, Nat.zero_sub]
  · have hslot := count_slots_pos (h.queued b hb)
    have hle := h.le_one b
    rw [closed_count]
    omega

theorem closed_eq_self (h : ∀ b, some b ∈ s.lines.val → s.linemem.count b = 0) : s.closed = s := by
  have hline {line : Fin K.numlines} (hl : s.linemem.count line = 0) : s.deallocLine line = s := by
    simp [Server.deallocLine, Memb.free, hl]
  have hmem : ∀ b ∈ s.lines.val.filterMap id, s.linemem.count b = 0 :=
    fun b hb => h b (by simpa using hb)
  simp only [Server.closed]
  revert hmem
  generalize s.lines.val.filterMap id = ls
  intro hmem
  induction ls with
  | nil => rfl
  | cons l ls ih =>
    rw [List.foldl_cons, hline (hmem l (by simp))]
    exact ih fun b hb => hmem b (by simp [hb])

theorem weak_of_allFree (h : s.linemem.AllFree) : Weak s where
  le_one b := by simp [h b]
  queued b hb := absurd (h b) hb

theorem Weak.deallocLine (h : Weak s) (line : Fin K.numlines) : Weak (s.deallocLine line) where
  le_one b := (s.deallocLine_count_le line b).trans (h.le_one b)
  queued b hb := h.queued b fun h0 => hb (Nat.le_zero.mp (h0 ▸ s.deallocLine_count_le line b))

/-- A line in use that is not in a slot yet is either put there or freed. -/
theorem Weak.sendline {line : Fin K.numlines} {m : Memb K.linelen K.numlines} (h : Weak s)
    (hcount : m.count = Function.update s.linemem.count line 1) :
    Weak ({ s with linemem := m }.sendline line) := by
  simp only [Server.sendline]
  cases hpush : s.lines.push line with
  | some lines =>
    refine ⟨fun b => ?_, fun b hb => ?_⟩
    · simp only [log, hcount, Function.update_apply]
      split
      · exact le_rfl
      · exact h.le_one b
    · simp only [log, hcount, Function.update_apply] at hb ⊢
      refine (Slots.mem_push hpush).mpr ?_
      by_cases hl : b = line
      · exact .inl hl
      · exact .inr (h.queued b (by simpa [hl] using hb))
  | none =>
    have hc (b : Fin K.numlines) :
        (({ s with linemem := m }.log .overflow).deallocLine line).linemem.count b =
          if b = line then 0 else s.linemem.count b := by
      simp only [Server.deallocLine, log, Memb.free_count, hcount, Function.update_apply]
      split <;> simp_all
    refine ⟨fun b => ?_, fun b hb => ?_⟩
    · rw [hc]
      split
      · exact Nat.zero_le _
      · exact h.le_one b
    · rw [hc] at hb
      split at hb
      · exact absurd rfl hb
      · exact h.queued b hb

theorem Weak.step (h : Weak s) (hs : Step Q s t) : Weak t := by
  cases hs with
  | line hs =>
    cases hs with
    | put line m _ hcount => exact h.sendline hcount
    | _ => exact ⟨h.le_one, h.queued⟩
  | _ => exact ⟨h.le_one, h.queued⟩

theorem Weak.steps (h : Weak s) (hs : Steps Q s t) : Weak t := by
  induction hs with
  | refl => exact h
  | tail _ hstep ih => exact ih.step hstep

theorem Weak.ackLine (h : Weak s) : Weak s.ackLine := by
  have hval : (s.lines.shift).val = (s.lines.val ++ [none]).tail := rfl
  cases hl : s.lines.val with
  | nil =>
    refine ⟨?_, fun b hb => ?_⟩
    · simpa [Server.ackLine, hl] using h.le_one
    · have := h.queued b (by simpa [Server.ackLine, hl] using hb)
      simp [hl] at this
  | cons o ls =>
    cases o with
    | none =>
      refine ⟨by simpa [Server.ackLine, hl] using h.le_one, fun b hb => ?_⟩
      have := h.queued b (by simpa [Server.ackLine, hl] using hb)
      simpa [Server.ackLine, hval, hl] using this
    | some line =>
      refine ⟨?_, fun b hb => ?_⟩
      · simpa [Server.ackLine, hl] using (h.deallocLine line).le_one
      · have hb' : (s.deallocLine line).linemem.count b ≠ 0 := by
          simpa [Server.ackLine, hl] using hb
        have hne : b ≠ line := by
          rintro rfl
          have := h.le_one b
          simp only [Server.deallocLine, Memb.free_count, Function.update_self] at hb'
          omega
        have := (h.deallocLine line).queued b hb'
        simp only [Server.deallocLine, hl, List.mem_cons, Option.some.injEq, hne, false_or] at this
        have hlines : s.ackLine.lines = s.lines.shift := by
          simp [Server.ackLine, hl, Server.deallocLine]
        rw [hlines, hval, hl]
        simp [this]

theorem Weak.ackLines {n : Nat} (h : Weak s) : Weak (ackLines n s) := by
  induction n generalizing s with
  | zero => exact h
  | succ n ih => exact ih h.ackLine

theorem Weak.acked (h : Weak s) : Weak s.acked :=
  Weak.ackLines ⟨h.le_one, h.queued⟩

theorem Weak.handle {sh : Shell σ} (h : Weak s) (call : Call) : Weak (s.handle sh call).1 := by
  have h1 : Weak (if call.Closing then s.closed else s) := by
    split
    · exact weak_of_allFree h.closed
    · exact h
  rw [handle_eq]
  dsimp only
  generalize (if call.Closing then s.closed else s) = s1 at h1 ⊢
  have h2 : Weak (if call.acked then s1.acked else s1) := by
    split
    · exact h1.acked
    · exact h1
  generalize (if call.acked then s1.acked else s1) = s2 at h2 ⊢
  have h3 : Weak (if call.newdata then (s2.newdata sh call.data).1 else s2) := by
    split
    · exact h2.steps (newdata_steps sh (fun _ _ _ => True.intro) call.data s2)
    · exact h2
  split
  · exact ⟨h3.le_one, h3.queued⟩
  · exact h3

/-- A call that only reports the end of the connection frees the pool. -/
theorem Weak.handle_closing {sh : Shell σ} (h : Weak s) {call : Call} (hclosing : call.Closing)
    (hacked : call.acked = false) (hnew : call.newdata = false) :
    (s.handle sh call).1.linemem.AllFree := by
  rw [handle_eq]
  simp only [hclosing, hacked, hnew, ↓reduceIte, Bool.false_eq_true]
  split
  · exact h.closed
  · exact h.closed

/-! ### A call up to its data -/

theorem ackLines_emits (n : Nat) (s : Server K σ) : Emits s (ackLines n s) [] [] := by
  induction n generalizing s with
  | zero => exact s.emits_self
  | succ n ih => exact s.ackLine_emits.trans (ih s.ackLine)

theorem closed_emits (s : Server K σ) : Emits s s.closed [] [] := by
  simp only [Server.closed]
  generalize s.lines.val.filterMap id = ls
  induction ls generalizing s with
  | nil => exact s.emits_self
  | cons l ls ih => exact (s.deallocLine_emits l).trans (ih (s.deallocLine l))

theorem ackLine_lines (s : Server K σ) : s.ackLine.lines = s.lines.shift := by
  simp only [Server.ackLine]
  split <;> rfl

theorem ackLines_holds {ls : List (Fin K.numlines)} (h : s.lines.Holds ls) (n : Nat) :
    ∃ ls', (ackLines n s).lines.Holds ls' := by
  induction n generalizing s ls with
  | zero => exact ⟨ls, h⟩
  | succ n ih => exact ih (s.ackLine_lines ▸ h.shift)

theorem allFree_ackLines (h : s.linemem.AllFree) (n : Nat) : (ackLines n s).linemem.AllFree := by
  induction n generalizing s with
  | zero => exact h
  | succ n ih =>
    refine ih fun b => ?_
    simp only [Server.ackLine]
    split
    · next line _ => exact Nat.le_zero.mp (h b ▸ s.deallocLine_count_le line b)
    · exact h b

theorem acked_queuedTexts (s : Server K σ) : s.acked.queuedTexts = s.queuedTexts := by
  have hlog := emits_log s (e := .acked (s.texts (s.lines.val.take s.numsent))) nofun
  have hemits : Emits s s.acked _ _ := hlog.trans (ackLines_emits s.numsent _)
  simpa [Obs.queued?] using hemits.queuedTexts

/-- Up to its data a call queues nothing. -/
theorem beforeData_queuedTexts (sh : Shell σ) {call : Call} (h : call.connected = false)
    (s : Server K σ) : (s.beforeData sh call).queuedTexts = s.queuedTexts := by
  have hclosed : (if call.Closing then s.closed else s).queuedTexts = s.queuedTexts := by
    split
    · simpa using s.closed_emits.queuedTexts
    · rfl
  simp only [beforeData, h, Bool.false_eq_true, ↓reduceIte]
  split
  · exact (acked_queuedTexts _).trans hclosed
  · exact hclosed

/-- When a call comes to its data there is a block for each empty slot: in an open connection the
free blocks are those that no slot holds, and after the close of one all blocks are free. -/
theorem Sound.vacant_beforeData (h : Sound s) (sh : Shell σ) {call : Call}
    (hconn : call.connected = false) : Vacant (s.beforeData sh call) := by
  obtain ⟨q, hq⟩ := h.valid
  simp only [beforeData, hconn, Bool.false_eq_true, ↓reduceIte]
  by_cases hclosing : call.Closing
  · rw [if_pos hclosing]
    have hfree := hq.weak.closed
    have hlines : s.closed.lines.Holds q := (foldl_deallocLine_lines ..).symm ▸ hq.slots
    split
    · obtain ⟨ls, hls⟩ := ackLines_holds (s := s.closed.log _) hlines s.closed.numsent
      exact .of_allFree hls (allFree_ackLines (s := s.closed.log _) hfree _)
    · exact .of_allFree hlines hfree
  · rw [if_neg hclosing]
    split
    · obtain ⟨⟨q', hq'⟩, -⟩ := h.acked
      exact hq'.vacant
    · exact hq.vacant

/-- A call without data queues nothing. -/
theorem appcall_queuedTexts (sh : Shell σ) {call : Call} (hconn : call.connected = false)
    (hnew : call.newdata = false) (hs : s.state ≠ .close) :
    (s.appcall sh call).1.queuedTexts = s.queuedTexts := by
  have hstate : (s.beforeData sh call).state ≠ .close := by
    have hsame := (beforeData_sameParser sh call s).state.resolve_right (·.1)
    simp only [hconn, Bool.false_eq_true, ↓reduceIte] at hsame
    rwa [hsame]
  have htexts := s.beforeData_queuedTexts sh hconn
  simp only [appcall_eq hstate, hnew, Bool.false_eq_true, ↓reduceIte]
  split <;> exact htexts

end Server

end OpenPLC
