import Mathlib.Data.List.Basic
import Mathlib.Data.List.TakeWhile

/-! Exactly-once delivery over a link with one segment in flight.  A sender keeps a queue of items,
fills a segment with the first of them, and removes these when the segment is acknowledged.  It may
fill the segment again while one is in flight, for a retransmission or because new items came; the
condition `Outbox.Keeps` says when that leaves the segment as it is, and then every item is
delivered exactly once. -/

namespace Lib

variable {β : Type*}

/-- How many items, from the front, stay below `m` elements with `n` elements before them. -/
def fit (m : Nat) : List (List β) → Nat → Nat
  | [], _ => 0
  | x :: xs, n => if n + x.length < m then fit m xs (n + x.length) + 1 else 0

theorem fit_le_length (m : Nat) (xs : List (List β)) (n : Nat) : fit m xs n ≤ xs.length := by
  induction xs generalizing n with
  | nil => exact Nat.le_refl 0
  | cons x xs ih =>
    simp only [fit]
    split
    · exact Nat.succ_le_succ (ih _)
    · exact Nat.zero_le _

theorem length_flatten_take_fit (m : Nat) (xs : List (List β)) (n : Nat) :
    fit m xs n = 0 ∨ n + (xs.take (fit m xs n)).flatten.length < m := by
  induction xs generalizing n with
  | nil => exact .inl rfl
  | cons x xs ih =>
    simp only [fit]
    split
    · next hlt =>
      right
      rw [List.take_succ_cons, List.flatten_cons, List.length_append]
      rcases ih (n + x.length) with h | h
      · rw [h]
        simpa using hlt
      · omega
    · exact .inl rfl

/-- When the items `xs` stay below the bound and the item after them does not, `xs` is what fits. -/
theorem fit_append {m : Nat} {xs ys : List (List β)} {n : Nat}
    (hlt : n + xs.flatten.length < m) (hge : ∀ y ∈ ys.head?, m ≤ n + xs.flatten.length + y.length) :
    fit m (xs ++ ys) n = xs.length := by
  induction xs generalizing n with
  | nil =>
    cases ys with
    | nil => rfl
    | cons y ys =>
      have : ¬n + y.length < m := by simpa using hge y rfl
      simp [fit, this]
  | cons x xs ih =>
    rw [List.flatten_cons, List.length_append, ← Nat.add_assoc] at hlt hge
    rw [List.cons_append, fit, if_pos (by omega), ih hlt hge, List.length_cons]

theorem le_fit {m k n : Nat} {xs : List (List β)} (hk : k ≤ xs.length)
    (hlt : n + (xs.take k).flatten.length < m) : k ≤ fit m xs n := by
  induction xs generalizing k n with
  | nil => exact hk
  | cons x xs ih =>
    cases k with
    | zero => exact Nat.zero_le _
    | succ k =>
      rw [List.take_succ_cons, List.flatten_cons, List.length_append, ← Nat.add_assoc] at hlt
      rw [fit, if_pos (by omega)]
      exact Nat.succ_le_succ (ih (Nat.le_of_succ_le_succ hk) hlt)

/-- The items that wait behind the first `n` elements, from the first one that is not empty. -/
def waiting : Nat → List (List β) → List (List β)
  | _, [] => []
  | n, x :: xs => if n = 0 ∧ x.length ≠ 0 then x :: xs else waiting (n - x.length) xs

theorem waiting_append (xs ys : List (List β)) :
    waiting xs.flatten.length (xs ++ ys) = ys.dropWhile List.isEmpty := by
  induction xs with
  | nil =>
    induction ys with
    | nil => rfl
    | cons y ys ih =>
      cases y with
      | nil => simpa [waiting] using ih
      | cons => simp [waiting]
  | cons x xs ih =>
    have hnot : ¬((x :: xs).flatten.length = 0 ∧ x.length ≠ 0) := by
      rw [List.flatten_cons, List.length_append]
      omega
    rw [List.cons_append, waiting, if_neg hnot, List.flatten_cons, List.length_append,
      Nat.add_sub_cancel_left, ih]

/-- A queue of items, and the number of items in the last segment. -/
structure Outbox (β : Type*) where
  queue : List (List β)
  sent : Nat

namespace Outbox

/-- The last segment. -/
def segment (o : Outbox β) : List β := (o.queue.take o.sent).flatten

/-- The segment is acknowledged. -/
def ack (o : Outbox β) : Outbox β := ⟨o.queue.drop o.sent, 0⟩

/-- Queue new items, and fill a segment of less than `m` elements. -/
def refill (o : Outbox β) (m : Nat) (new : List (List β)) : Outbox β :=
  ⟨o.queue ++ new, fit m (o.queue ++ new) 0⟩

/-- The segment still fits, and the first item after it that is not empty does not fit with it. -/
def Keeps (o : Outbox β) (m : Nat) (new : List (List β)) : Prop :=
  o.segment.length < m ∧
    ∀ x ∈ ((o.queue.drop o.sent ++ new).dropWhile List.isEmpty).head?,
      m ≤ o.segment.length + x.length

theorem length_segment_refill_le (o : Outbox β) (m : Nat) (new : List (List β)) :
    (o.refill m new).segment.length ≤ m := by
  rcases length_flatten_take_fit m (o.queue ++ new) 0 with h | h
  · simp [segment, refill, h]
  · rw [Nat.zero_add] at h
    exact h.le

instance (o : Outbox β) (m : Nat) (new : List (List β)) : Decidable (o.Keeps m new) :=
  inferInstanceAs (Decidable (_ ∧ _))

theorem Keeps.segment_refill {o : Outbox β} {m : Nat} {new : List (List β)} (h : o.Keeps m new) :
    (o.refill m new).segment = o.segment := by
  set rest := o.queue.drop o.sent ++ new with hrest
  have hq : o.queue ++ new =
      (o.queue.take o.sent ++ rest.takeWhile List.isEmpty) ++ rest.dropWhile List.isEmpty := by
    rw [List.append_assoc, List.takeWhile_append_dropWhile, hrest, ← List.append_assoc,
      List.take_append_drop]
  have hempty : (rest.takeWhile List.isEmpty).flatten = [] := by
    rw [List.flatten_eq_nil_iff]
    exact fun x hx => List.isEmpty_iff.mp (List.mem_takeWhile_imp hx)
  have hflat : (o.queue.take o.sent ++ rest.takeWhile List.isEmpty).flatten = o.segment := by
    rw [List.flatten_append, hempty, List.append_nil, segment]
  have hfit : fit m (o.queue ++ new) 0 =
      (o.queue.take o.sent ++ rest.takeWhile List.isEmpty).length := by
    rw [hq, fit_append (by simpa [hflat] using h.1) (by simpa [hflat] using h.2)]
  simp only [segment, refill, hfit]
  rw [hq, List.take_left, hflat, segment]

/-- What is in flight still fits, and the first item that waits behind it does not fit with it. -/
def Refits (flight : List β) (queue : List (List β)) (m : Nat) : Prop :=
  flight.length < m ∧ ∀ x ∈ (waiting flight.length queue).head?, m ≤ flight.length + x.length

instance (flight : List β) (queue : List (List β)) (m : Nat) : Decidable (Refits flight queue m) :=
  inferInstanceAs (Decidable (_ ∧ _))

/-- Filled anew, the segment is the one in flight if and only if that still fits, and no more
does. -/
theorem segment_refill_eq_iff {o : Outbox β} {flight : List β} {k m : Nat}
    (hflight : flight = (o.queue.take k).flatten) (hne : flight ≠ []) :
    (o.refill m []).segment = flight ↔ Refits flight o.queue m := by
  have hwaiting : waiting flight.length o.queue = (o.queue.drop k).dropWhile List.isEmpty := by
    rw [← waiting_append (o.queue.take k), List.take_append_drop, ← hflight]
  rw [Refits, hwaiting]
  constructor
  · intro hseg
    simp only [segment, refill, List.append_nil] at hseg
    have hfits := length_flatten_take_fit m o.queue 0
    rw [hseg, Nat.zero_add] at hfits
    have hlt : flight.length < m := hfits.resolve_left fun h0 => hne (by rw [← hseg, h0]; rfl)
    refine ⟨hlt, fun x hx => ?_⟩
    -- a line that fits as well would be in the segment
    by_contra hfit
    set rest := o.queue.drop k with hrest
    obtain ⟨tail, htail⟩ : ∃ tail, rest.dropWhile List.isEmpty = x :: tail := by
      cases hd : rest.dropWhile List.isEmpty with
      | nil => simp [hd] at hx
      | cons y tail => exact ⟨tail, by simpa [hd] using hx⟩
    have hempty : (rest.takeWhile List.isEmpty).flatten = [] := by
      rw [List.flatten_eq_nil_iff]
      exact fun y hy => List.isEmpty_iff.mp (List.mem_takeWhile_imp hy)
    set front := o.queue.take k ++ rest.takeWhile List.isEmpty ++ [x] with hfront
    have hqueue : o.queue = front ++ tail := by
      rw [hfront, List.append_assoc, List.append_assoc, List.singleton_append, ← htail,
        List.takeWhile_append_dropWhile, hrest, List.take_append_drop]
    have hbytes : front.flatten = flight ++ x := by
      rw [hfront, List.flatten_append, List.flatten_append, hempty, ← hflight]
      simp
    have hle : front.length ≤ fit m o.queue 0 := by
      refine le_fit (by rw [hqueue]; simp) ?_
      rw [hqueue, List.take_left, hbytes, List.length_append]
      omega
    have hmore : (flight ++ x).length ≤ flight.length := by
      obtain ⟨rest', hrest'⟩ := List.take_prefix_take_left (l := o.queue) hle
      have hfront' : o.queue.take front.length = front := by rw [hqueue, List.take_left]
      have hflight' : flight = front.flatten ++ rest'.flatten := by
        rw [← hseg, ← hrest', hfront', List.flatten_append]
      have hlength := congrArg List.length hflight'
      rw [List.length_append, hbytes] at hlength
      omega
    rw [List.length_append] at hmore
    have hx0 : x ≠ [] := by
      have := List.head?_dropWhile_not List.isEmpty rest
      simpa [htail] using this
    exact hx0 (List.length_eq_zero_iff.mp (by omega))
  · rintro ⟨hlt, hge⟩
    have hkeeps : (⟨o.queue, k⟩ : Outbox β).Keeps m [] := by
      rw [hflight] at hlt hge
      exact ⟨hlt, by simpa [segment] using hge⟩
    exact hkeeps.segment_refill.trans hflight.symm

end Outbox

/-- An event on the link: data is sent, for the first time or again, or so many elements are
acknowledged. -/
inductive LinkEvent (β : Type*)
  | sent (again : Bool) (data : List β)
  | ackd (n : Nat)

/-- What the events of the link say: the data in flight, the data acknowledged, one list for each
acknowledgment, and whether each retransmission was of the data in flight. -/
structure Link (β : Type*) where
  flight : List β
  acked : List (List β)
  repeats : Bool

namespace Link

variable [DecidableEq β]

def step (l : Link β) : LinkEvent β → Link β
  | .sent false data => { l with flight := data }
  | .sent true data => { l with repeats := l.repeats && data == l.flight }
  | .ackd n =>
    if l.flight = [] then l
    else { l with flight := l.flight.drop n, acked := l.acked ++ [l.flight.take n] }

/-- The link after the events. -/
def ofEvents (es : List (LinkEvent β)) : Link β := es.foldl step ⟨[], [], true⟩

theorem ofEvents_append (es es' : List (LinkEvent β)) :
    ofEvents (es ++ es') = es'.foldl step (ofEvents es) := List.foldl_append ..

end Link

/-- An outbox with its link, the groups of items that it has removed, and the items that it has
queued. -/
structure Sender (β : Type*) where
  outbox : Outbox β
  link : Link β
  removed : List (List (List β))
  pushed : List (List β)

namespace Sender

/-- The data in flight is the segment, and every item is delivered exactly once: each acknowledgment
removed the items of the segment that it acknowledged, and the items removed and those in the queue
are all the items queued, in order. -/
structure ExactlyOnce (x : Sender β) : Prop where
  sent_le : x.outbox.sent ≤ x.outbox.queue.length
  flight : x.link.flight = [] ∨ x.link.flight = x.outbox.segment
  removed : x.removed.map List.flatten = x.link.acked
  delivered : x.removed.flatten ++ x.outbox.queue = x.pushed
  repeats : x.link.repeats = true

/-- The acknowledged data and the data in the queue are all the data queued. -/
theorem ExactlyOnce.flatten {x : Sender β} (h : x.ExactlyOnce) :
    x.link.acked.flatten ++ x.outbox.queue.flatten = x.pushed.flatten := by
  rw [← h.removed, ← List.flatten_flatten, ← List.flatten_append, h.delivered]

/-- Filling the segment leaves the segment in flight, if there is one. -/
theorem ExactlyOnce.refill_segment {x : Sender β} (h : x.ExactlyOnce) {new : List (List β)}
    {m : Nat}
    (hkeep : x.link.flight ≠ [] → x.outbox.Keeps m new) (hf : x.link.flight ≠ []) :
    (x.outbox.refill m new).segment = x.link.flight := by
  rw [(hkeep hf).segment_refill, h.flight.resolve_left hf]

variable [DecidableEq β]

/-- The outbox handles the acknowledgment of what is in flight. -/
def ack (x : Sender β) : Sender β :=
  { x with
    outbox := x.outbox.ack
    link := x.link.step (.ackd x.link.flight.length)
    removed := x.removed ++ [x.outbox.queue.take x.outbox.sent] }

/-- The outbox queues new items and fills a segment.  The link sends it, or sends as much as is in
flight again. -/
def refill (x : Sender β) (new : List (List β)) (m : Nat) : Sender β :=
  let o := x.outbox.refill m new
  { outbox := o
    link :=
      if o.segment = [] then x.link
      else if x.link.flight = [] then x.link.step (.sent false o.segment)
      else x.link.step (.sent true (o.segment.take x.link.flight.length))
    removed := x.removed
    pushed := x.pushed ++ new }

/-- An acknowledgment of data in flight keeps exactly-once delivery. -/
theorem ExactlyOnce.ack {x : Sender β} (h : x.ExactlyOnce) (hf : x.link.flight ≠ []) :
    x.ack.ExactlyOnce := by
  have hseg := h.flight.resolve_left hf
  have hgroup : [x.outbox.queue.take x.outbox.sent].map List.flatten = [x.link.flight] := by
    rw [hseg]
    rfl
  have hdel : (x.removed ++ [x.outbox.queue.take x.outbox.sent]).flatten ++ x.outbox.ack.queue =
      x.pushed := by
    rw [← h.delivered]
    simp [Outbox.ack, List.take_append_drop]
  simp only [Sender.ack, Link.step, hf, ↓reduceIte, List.drop_length, List.take_length]
  refine ⟨Nat.zero_le _, .inl rfl, ?_, hdel, h.repeats⟩
  rw [List.map_append, h.removed, hgroup]

/-- What the link sends is the whole segment. -/
theorem ExactlyOnce.refill_link {x : Sender β} (h : x.ExactlyOnce) {new : List (List β)} {m : Nat}
    (hkeep : x.link.flight ≠ [] → x.outbox.Keeps m new) :
    (x.refill new m).link =
      if (x.outbox.refill m new).segment = [] then x.link
      else x.link.step (.sent (decide (x.link.flight ≠ [])) (x.outbox.refill m new).segment) := by
  by_cases hf : x.link.flight = []
  · simp [Sender.refill, hf]
  · simp [Sender.refill, hf, h.refill_segment hkeep hf]

theorem ExactlyOnce.refill_flight {x : Sender β} (h : x.ExactlyOnce) {new : List (List β)} {m : Nat}
    (hkeep : x.link.flight ≠ [] → x.outbox.Keeps m new) :
    (x.refill new m).link.flight = (x.outbox.refill m new).segment := by
  rw [h.refill_link hkeep]
  by_cases hf : x.link.flight = []
  · split
    · next hs => rw [hf, hs]
    · simp [hf, Link.step]
  · have hs := h.refill_segment hkeep hf
    simp [hf, hs, Link.step]

/-- Filling the segment keeps exactly-once delivery, if it keeps the segment in flight. -/
theorem ExactlyOnce.refill {x : Sender β} (h : x.ExactlyOnce) {new : List (List β)} {m : Nat}
    (hkeep : x.link.flight ≠ [] → x.outbox.Keeps m new) : (x.refill new m).ExactlyOnce := by
  refine ⟨fit_le_length .., .inr (h.refill_flight hkeep), ?_, ?_, ?_⟩
  · have hacked : (x.refill new m).link.acked = x.link.acked := by
      rw [h.refill_link hkeep]
      split
      · rfl
      · cases decide (x.link.flight ≠ []) <;> rfl
    exact h.removed.trans hacked.symm
  · change x.removed.flatten ++ (x.outbox.queue ++ new) = x.pushed ++ new
    rw [← h.delivered, List.append_assoc]
  · rw [h.refill_link hkeep]
    split
    · exact h.repeats
    · by_cases hf : x.link.flight = []
      · simp [hf, Link.step, h.repeats]
      · simp [hf, Link.step, h.repeats, h.refill_segment hkeep hf]

end Sender

end Lib
