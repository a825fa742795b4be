import OpenPLC.Apps.Jsoncmd
import OpenPLC.Apps.Ownership

/-! How far `senddata` fills a segment.  Its comparison is strict, so that a segment is never quite
full: lines of exactly `uip_mss()` bytes in total do not go out together. -/

namespace OpenPLC

open Lib

namespace Server

variable {K : Conf} {σ : Type*}

/-- `numsent` lines, with the bytes `bs`, are the longest part of the queue that is no longer than a
segment of `m` bytes; it is not empty if the first line fits. -/
structure Fills (m : Nat) (queue : List (List UInt8)) (numsent : Nat) (bs : List UInt8) : Prop where
  numsent_le : numsent ≤ queue.length
  bytes : bs = (queue.take numsent).flatten
  fits : bs.length ≤ m
  longest : ∀ k ≤ queue.length, (queue.take k).flatten.length ≤ m → k ≤ numsent
  progress : ∀ line ∈ queue.head?, line.length ≤ m → 1 ≤ numsent

/-- Some lines from the front of the queue are exactly a segment. -/
def ExactFit (m : Nat) (queue : List (List UInt8)) : Prop :=
  ∃ k ≤ queue.length, 0 < k ∧ (queue.take k).flatten.length = m

theorem length_flatten_take_mono (xs : List (List UInt8)) {k n : Nat} (h : k ≤ n) :
    (xs.take k).flatten.length ≤ (xs.take n).flatten.length := by
  obtain ⟨rest, hrest⟩ := List.take_prefix_take_left (l := xs) h
  rw [← hrest, List.flatten_append, List.length_append]
  exact Nat.le_add_right _ _

/-- The lines that stay below the bound are the longest part up to the bound, unless some lines meet
it. -/
theorem fills_fit_iff (m : Nat) (queue : List (List UInt8)) :
    Fills m queue (fit m queue 0) (queue.take (fit m queue 0)).flatten ↔ ¬ExactFit m queue := by
  have hfit := length_flatten_take_fit m queue 0
  rw [Nat.zero_add] at hfit
  constructor
  · rintro h ⟨k, hk, hpos, hexact⟩
    have hle := h.longest k hk hexact.le
    have hmono := length_flatten_take_mono queue hle
    omega
  · intro hnot
    have longest (k : Nat) (hk : k ≤ queue.length)
        (hle : (queue.take k).flatten.length ≤ m) : k ≤ fit m queue 0 := by
      rcases Nat.eq_zero_or_pos k with rfl | hpos
      · exact Nat.zero_le _
      · have hne : (queue.take k).flatten.length ≠ m := fun h => hnot ⟨k, hk, hpos, h⟩
        exact le_fit hk (by omega)
    refine ⟨fit_le_length .., rfl, ?_, longest, ?_⟩
    · rcases hfit with h | h
      · simp [h]
      · exact h.le
    · intro line hline hle
      cases queue with
      | nil => cases hline
      | cons x xs =>
        obtain rfl : x = line := Option.some.inj hline
        exact longest 1 (Nat.succ_le_succ (Nat.zero_le _)) (by simpa using hle)

/-- For every queue and every MSS, `senddata` sends the longest part of the queue that fits if and
only if no part of it is exactly a segment. -/
theorem senddata_fills_iff (s : Server K σ) (m : Nat) :
    Fills m (s.queued s.lines.val) (s.senddata m).1.numsent (s.senddata m).2 ↔
      ¬ExactFit m (s.queued s.lines.val) := by
  simp only [senddata, fill_eq]
  exact fills_fit_iff m _

end Server

namespace Jsoncmd

/-- The reply of 22 bytes waits, and a segment takes 22 bytes, but nothing is sent. -/
theorem not_senddata_fills :
    let s : Server conf ShellState :=
      ((Server.init shellState).newdata (shell physCallbacks).toShell (ascii "\"\"\n")).1
    s.queued s.lines.val = [ascii "\x7b\"response\":\"error\"\x7d\r\n"] ∧
      (s.senddata 22).1.numsent = 0 ∧
      ¬Server.Fills 22 (s.queued s.lines.val) (s.senddata 22).1.numsent (s.senddata 22).2 := by
  intro s
  have hqueue : s.queued s.lines.val = [ascii "\x7b\"response\":\"error\"\x7d\r\n"] := by
    decide +kernel
  have hnone : (s.senddata 22).1.numsent = 0 := by decide +kernel
  refine ⟨hqueue, hnone, fun h => ?_⟩
  have hprogress := h.progress
  rw [hqueue, hnone] at hprogress
  exact absurd (hprogress _ rfl (by decide)) (by decide)

end Jsoncmd

end OpenPLC
