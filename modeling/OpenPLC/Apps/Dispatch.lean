import OpenPLC.Apps.PortMapper

/-! Which applications the port mapper calls.  Zero is a wildcard in its table and a port on the
wire; an entry that names a port matches the connections with all the ports that it names. -/

namespace OpenPLC

open Lib Stack

variable {α : Type*}

namespace PortAppcallMap

/-- The connection has every port that the entry names. -/
def Serves (m : PortAppcallMap α) (k : Conn) : Prop :=
  (m.lport ≠ 0 → k.lport = htons m.lport) ∧ (m.rport ≠ 0 → k.rport = htons m.rport)

instance (m : PortAppcallMap α) (k : Conn) : Decidable (m.Serves k) :=
  inferInstanceAs (Decidable (_ ∧ _))

/-- The two disjuncts of the match overlap where the entry names both ports. -/
theorem matches_iff_serves {m : PortAppcallMap α} (h : ¬(m.lport = 0 ∧ m.rport = 0)) (k : Conn) :
    m.Matches k ↔ m.Serves k := by
  simp only [Matches, Serves]
  by_cases hl : m.lport = 0
  · have hr : m.rport ≠ 0 := fun hr => h ⟨hl, hr⟩
    simp only [hl, hr, false_or, true_or, and_true, ne_eq, not_true_eq_false, false_implies,
      not_false_eq_true, forall_const, true_and]
    exact ⟨fun hm => hm.elim id (·.2), .inl⟩
  · by_cases hr : m.rport = 0
    · simp only [hl, hr, false_or, true_or, and_true, ne_eq, not_true_eq_false, false_implies,
        not_false_eq_true, forall_const]
      exact ⟨fun hm => hm.elim (·.2) id, .inr⟩
    · simp only [hl, hr, false_or, ne_eq, not_false_eq_true, forall_const]
      exact ⟨fun hm => hm.elim And.symm id, .inr⟩

/-- The entry with number `n` in the table.  Each of its calls is recorded, with the flags that the
application sees. -/
def recorded (n : Nat) (m : PortAppcallMap α) : PortAppcallMap (α × List (Nat × Flags)) where
  anAppcall w :=
    let w' := m.anAppcall (w.withApp w.app.1)
    w'.withApp (w'.app, w.app.2 ++ [(n, w.flags)])
  lport := m.lport
  rport := m.rport

/-- The entries of a table with their numbers, from `n` on. -/
def recordedFrom : Nat → List (PortAppcallMap α) → List (PortAppcallMap (α × List (Nat × Flags)))
  | _, [] => []
  | n, m :: ms => m.recorded n :: recordedFrom (n + 1) ms

end PortAppcallMap

open PortAppcallMap

/-- The numbers of the entries that are to be called: all of them for a timeout, and else the first
one that serves the connection. -/
def calledEntries (curMap : List (PortAppcallMap α)) (flags : Flags) (k : Conn) : List Nat :=
  if flags.timedout then List.range curMap.length
  else (curMap.findIdx? fun m => m.Serves k).toList

/-- The calls of some entries one after the other, each with the flags `flags`. -/
def callEntries (curMap : List (PortAppcallMap α)) (flags : Flags) (ns : List Nat) (w : Stack α) :
    Stack α :=
  ns.foldl (fun w n => match curMap[n]? with
    | some m => m.anAppcall { w with flags }
    | none => w) w

theorem recorded_anAppcall (n : Nat) (m : PortAppcallMap α) (w : Stack (α × List (Nat × Flags))) :
    let w' := (m.recorded n).anAppcall w
    w'.app.2 = w.app.2 ++ [(n, w.flags)] ∧
      w'.withApp w'.app.1 = m.anAppcall (w.withApp w.app.1) := ⟨rfl, rfl⟩

/-- A timeout is recorded once for every entry, in the order of the table. -/
theorem callAll_recorded (flags : Flags) (ms : List (PortAppcallMap α)) (n : Nat)
    (w : Stack (α × List (Nat × Flags))) :
    let w' := callAll flags (recordedFrom n ms) w
    w'.app.2 = w.app.2 ++ (List.range' n ms.length).map (·, flags) ∧
      w'.withApp w'.app.1 = callAll flags ms (w.withApp w.app.1) := by
  induction ms generalizing n w with
  | nil => exact ⟨(List.append_nil _).symm, rfl⟩
  | cons m ms ih =>
    obtain ⟨hlog, hstack⟩ := ih (n + 1) ((m.recorded n).anAppcall { w with flags })
    obtain ⟨hlog₁, hstack₁⟩ := recorded_anAppcall n m { w with flags }
    refine ⟨?_, ?_⟩
    · refine hlog.trans ?_
      rw [hlog₁, List.append_assoc]
      rfl
    · refine hstack.trans ?_
      rw [hstack₁]
      rfl

theorem find?_recordedFrom (k : Conn) (ms : List (PortAppcallMap α)) (n : Nat) :
    (recordedFrom n ms).find? (fun m => m.Matches k) =
      (ms.findIdx? fun m => m.Matches k).bind fun i => ms[i]?.map fun m => m.recorded (n + i) := by
  induction ms generalizing n with
  | nil => rfl
  | cons m ms ih =>
    have hsame : (m.recorded n).Matches k ↔ m.Matches k := Iff.rfl
    rw [recordedFrom, List.find?_cons, List.findIdx?_cons]
    by_cases hm : m.Matches k
    · simp [hm, hsame]
    · simp only [hm, hsame, decide_false, Bool.false_eq_true, ↓reduceIte, ih, Option.bind_map]
      refine Option.bind_congr fun i _ => ?_
      simp [Nat.add_assoc, Nat.add_comm 1]

theorem callAll_eq_callEntries (flags : Flags) (pre ms : List (PortAppcallMap α)) (w : Stack α) :
    callAll flags ms w = callEntries (pre ++ ms) flags (List.range' pre.length ms.length) w := by
  induction ms generalizing pre w with
  | nil => rfl
  | cons m ms ih =>
    have hrest := ih (pre ++ [m]) (m.anAppcall { w with flags })
    rw [List.append_assoc, List.singleton_append, List.length_append] at hrest
    refine hrest.trans ?_
    simp [callEntries, List.range'_succ]

/-- With ports in every entry, the first match is the first entry that serves the connection. -/
theorem findIdx?_matches {curMap : List (PortAppcallMap α)}
    (hports : ∀ m ∈ curMap, ¬(m.lport = 0 ∧ m.rport = 0)) (k : Conn) :
    (curMap.findIdx? fun m => m.Matches k) = curMap.findIdx? fun m => m.Serves k := by
  induction curMap with
  | nil => rfl
  | cons m ms ih =>
    have hm := matches_iff_serves (hports m List.mem_cons_self) k
    rw [List.findIdx?_cons, List.findIdx?_cons, ih fun m hm => hports m (List.mem_cons_of_mem _ hm)]
    simp only [hm]

theorem find?_eq_findIdx? (p : PortAppcallMap α → Bool) (ms : List (PortAppcallMap α)) :
    ms.find? p = (ms.findIdx? p).bind fun i => ms[i]? := by
  induction ms with
  | nil => rfl
  | cons m ms ih =>
    rw [List.find?_cons, List.findIdx?_cons]
    cases p m with
    | true => rfl
    | false => simp [ih, Option.bind_map]

/-- For every table and connection, the port mapper calls the entries that are to be called, each of
them once and with the flags that it was entered with. -/
theorem mapper_dispatches (curMap : List (PortAppcallMap α))
    (hports : ∀ m ∈ curMap, ¬(m.lport = 0 ∧ m.rport = 0)) (w : Stack α) (c : ConnId)
    (hconn : w.conn = some c) :
    let ns := calledEntries curMap w.flags (w.conns c)
    let w' := uipAppcallPortAppMapper (recordedFrom 0 curMap) (w.withApp (w.app, []))
    w'.app.2 = ns.map (·, w.flags) ∧ w'.withApp w'.app.1 = uipAppcallPortAppMapper curMap w ∧
      uipAppcallPortAppMapper curMap w = callEntries curMap w.flags ns w := by
  intro ns w'
  have hw' : w' = uipAppcallPortAppMapper (recordedFrom 0 curMap) (w.withApp (w.app, [])) := rfl
  have hns : ns = calledEntries curMap w.flags (w.conns c) := rfl
  clear_value w' ns
  have hflags : (w.withApp (w.app, ([] : List (Nat × Flags)))).flags = w.flags := rfl
  have hconn' : (w.withApp (w.app, ([] : List (Nat × Flags)))).conn = some c := hconn
  simp only [uipAppcallPortAppMapper, hflags, hconn', hconn, find?_recordedFrom] at hw' ⊢
  simp only [calledEntries] at hns
  cases htimedout : w.flags.timedout with
  | true =>
    simp only [htimedout, ↓reduceIte] at hw' hns ⊢
    obtain ⟨hlog, hstack⟩ := callAll_recorded w.flags curMap 0 (w.withApp (w.app, []))
    rw [← hw'] at hlog hstack
    rw [hns, List.range_eq_range']
    exact ⟨hlog, hstack, callAll_eq_callEntries w.flags [] curMap w⟩
  | false =>
    simp only [htimedout, Bool.false_eq_true, ↓reduceIte] at hw' hns ⊢
    rw [find?_eq_findIdx?]
    have hserves := findIdx?_matches hports (w.conns c)
    rw [← hserves] at hns
    have hconns : (w.withApp (w.app, ([] : List (Nat × Flags)))).conns = w.conns := rfl
    simp only [hconns] at hw'
    cases hi : curMap.findIdx? fun m => m.Matches (w.conns c) with
    | none =>
      simp only [hi, Option.bind_none, Option.toList_none] at hw' hns ⊢
      subst hw' hns
      exact ⟨rfl, rfl, rfl⟩
    | some i =>
      obtain ⟨hlt, -⟩ := List.findIdx?_eq_some_iff_getElem.mp hi
      simp only [hi, Option.bind_some, Option.toList_some, List.getElem?_eq_getElem hlt,
        Option.map_some, Nat.zero_add] at hw' hns ⊢
      subst hw' hns
      refine ⟨rfl, rfl, ?_⟩
      simp [callEntries, hlt]

/-- A timeout with two applications that close their connections. -/
theorem mapper_dispatches_timeout :
    let w : Stack Unit := { Stack.init 0 () with conn := some 0, flags := { timedout := true } }
    (uipAppcallPortAppMapper (recordedFrom 0 [⟨uipClose, 23, 0⟩, ⟨uipClose, 0, 80⟩])
      (w.withApp ((), []))).app.2 = [(0, { timedout := true }), (1, { timedout := true })] := by
  intro w
  exact (mapper_dispatches [⟨uipClose, 23, 0⟩, ⟨uipClose, 0, 80⟩] (by decide) w 0 rfl).1

end OpenPLC
