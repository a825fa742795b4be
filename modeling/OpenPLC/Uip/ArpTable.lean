import OpenPLC.Lib.Run
import OpenPLC.Uip.Arp

/-! The ARP table over a run.  It is a cache of what was heard last of each address, with eight
entries that grow old; the clock of the entries is a byte, so the ones that are heard in the second
half of its round never do. -/

namespace OpenPLC

open Lib

/-- No word of the address is zero.  `uip_arp_update` knows only the entries of such addresses. -/
def IpAddr.Plain (ip : IpAddr) : Prop := ip.w0 ≠ 0 ∧ ip.w1 ≠ 0

instance (ip : IpAddr) : Decidable ip.Plain := inferInstanceAs (Decidable (_ ∧ _))

theorem IpAddr.Plain.ne_zeroes {ip : IpAddr} (h : ip.Plain) : ip ≠ .zeroes := by
  rintro rfl
  exact h.1 rfl

namespace Arp

variable {a : Arp} {ip ip' : IpAddr} {mac mac' : List UInt8}

/-- What changes the table: the timer, and an address with the hardware address it is heard from. -/
inductive Op
  | timer
  | update (ipaddr : IpAddr) (ethaddr : List UInt8)
deriving DecidableEq

def step (a : Arp) : Op → Arp
  | .timer => a.timer
  | .update ipaddr ethaddr => a.update ipaddr ethaddr

/-- The abstract table has what was heard last of each address. -/
def hear (m : IpAddr → Option (List UInt8)) : Op → IpAddr → Option (List UInt8)
  | .timer => m
  | .update ipaddr ethaddr => Function.update m ipaddr (some ethaddr)

/-- The entry for an address. -/
def entry (a : Arp) (ip : IpAddr) : Option ArpEntry :=
  ((List.finRange 8).find? fun i => ip = (a.table i).ipaddr).map a.table

theorem lookup_eq_entry (a : Arp) (ip : IpAddr) :
    a.lookup ip = (a.entry ip).map ArpEntry.ethaddr := by
  unfold lookup entry
  rw [Option.map_map]
  rfl

/-- An address has one entry at most. -/
def Single (a : Arp) : Prop :=
  ∀ i j, (a.table i).ipaddr.Plain → (a.table i).ipaddr = (a.table j).ipaddr → i = j

theorem entry_eq_none_iff : a.entry ip = none ↔ ∀ i, (a.table i).ipaddr ≠ ip := by
  unfold entry
  rw [Option.map_eq_none_iff, List.find?_eq_none]
  constructor
  · intro h i hi
    exact absurd hi.symm (by simpa using h i (List.mem_finRange i))
  · intro h i _
    simpa using (h i).symm

theorem Single.entry_eq_some_iff (hs : a.Single) (hip : ip.Plain) {e : ArpEntry} :
    a.entry ip = some e ↔ ∃ i, a.table i = e ∧ e.ipaddr = ip := by
  constructor
  · intro h
    obtain ⟨i, hfind, rfl⟩ := Option.map_eq_some_iff.mp h
    have hi : ip = (a.table i).ipaddr := by simpa using List.find?_some hfind
    exact ⟨i, rfl, hi.symm⟩
  · rintro ⟨i, rfl, hi⟩
    cases hentry : a.entry ip with
    | none => exact absurd hi (entry_eq_none_iff.mp hentry i)
    | some e =>
      obtain ⟨j, hfind, rfl⟩ := Option.map_eq_some_iff.mp hentry
      have hj : ip = (a.table j).ipaddr := by simpa using List.find?_some hfind
      rw [hs i j (hi ▸ hip) (hi.trans hj)]

/-! ### An update -/

/-- The slot for an address is its entry, if it has one. -/
theorem slot_ipaddr (hip : ip.Plain) {i : Fin 8} (hi : (a.table i).ipaddr = ip) :
    (a.table (a.slot ip)).ipaddr = ip := by
  unfold slot
  dsimp only
  split
  · next j hfind =>
    have hj := List.find?_some hfind
    simp only [decide_eq_true_eq] at hj
    exact hj.2.2.symm
  · next hnone =>
    have hi' := List.find?_eq_none.mp hnone i (List.mem_finRange i)
    simp [hi, hip.1, hip.2] at hi'

theorem update_self (a : Arp) (ip : IpAddr) (mac : List UInt8) :
    (a.update ip mac).table (a.slot ip) = ⟨ip, mac, a.arptime⟩ := Function.update_self ..

theorem update_of_ne (ip : IpAddr) (mac : List UInt8) {i : Fin 8} (h : i ≠ a.slot ip) :
    (a.update ip mac).table i = a.table i := Function.update_of_ne h ..

theorem Single.update (hs : a.Single) (ip : IpAddr) (mac : List UInt8) :
    (a.update ip mac).Single := by
  -- the slot is the only entry of the address
  have hother {i : Fin 8} (hi : i ≠ a.slot ip) (hip : ip.Plain)
      (h : (a.table i).ipaddr = ip) : False := by
    have hslot := slot_ipaddr hip h
    exact hi (hs i _ (h ▸ hip) (h.trans hslot.symm))
  intro i j hplain h
  by_cases hi : i = a.slot ip
  · by_cases hj : j = a.slot ip
    · rw [hi, hj]
    · rw [hi, update_self] at hplain h
      rw [update_of_ne ip mac hj] at h
      exact (hother hj hplain h.symm).elim
  · rw [update_of_ne ip mac hi] at hplain h
    by_cases hj : j = a.slot ip
    · rw [hj, update_self] at h
      have hip : ip.Plain := by
        rw [h] at hplain
        exact hplain
      exact (hother hi hip h).elim
    · rw [update_of_ne ip mac hj] at h
      exact hs i j hplain h

theorem Single.entry_update_self (hs : a.Single) (hip : ip.Plain) (mac : List UInt8) :
    (a.update ip mac).entry ip = some ⟨ip, mac, a.arptime⟩ :=
  ((hs.update ip mac).entry_eq_some_iff hip).mpr ⟨a.slot ip, update_self a ip mac, rfl⟩

/-- The search for the oldest entry. -/
theorem foldl_oldest {ι : Type*} (age : ι → Int) (is : List ι) {p : Int × ι}
    (hp : p.1 ≤ age p.2 ∨ p.1 ≤ 0) :
    let q := is.foldl (fun p i => if age i > p.1 then (age i, i) else p) p
    (∀ i ∈ is, age i ≤ q.1) ∧ (q.1 ≤ age q.2 ∨ q.1 ≤ 0) := by
  have hmono (js : List ι) (p : Int × ι) :
      p.1 ≤ (js.foldl (fun p i => if age i > p.1 then (age i, i) else p) p).1 := by
    induction js generalizing p with
    | nil => exact Int.le_refl _
    | cons j js ih =>
      rw [List.foldl_cons]
      refine Int.le_trans ?_ (ih _)
      split
      · next hgt => exact Int.le_of_lt hgt
      · exact Int.le_refl _
  induction is generalizing p with
  | nil => exact ⟨fun i hi => absurd hi List.not_mem_nil, hp⟩
  | cons j js ih =>
    dsimp only
    rw [List.foldl_cons]
    set p' := if age j > p.1 then (age j, j) else p with hp'
    have hj : age j ≤ p'.1 := by
      rw [hp']
      split
      · exact Int.le_refl _
      · next hle => exact Int.not_lt.mp hle
    have hbest : p'.1 ≤ age p'.2 ∨ p'.1 ≤ 0 := by
      rw [hp']
      split
      · exact .inl (Int.le_refl _)
      · exact hp
    obtain ⟨hseen, hq⟩ := ih hbest
    refine ⟨fun i hi => ?_, hq⟩
    rcases List.mem_cons.mp hi with rfl | hi
    · exact Int.le_trans hj (hmono js p')
    · exact hseen i hi

/-- The update for `ip'` throws the entry of `ip` away. -/
def Evicts (a : Arp) (ip : IpAddr) : Op → Prop
  | .timer => False
  | .update ip' _ => ip' ≠ ip ∧ (a.table (a.slot ip')).ipaddr = ip

instance (a : Arp) (ip : IpAddr) (op : Op) : Decidable (a.Evicts ip op) := by
  cases op with
  | timer => exact inferInstanceAs (Decidable False)
  | update ip' mac => exact inferInstanceAs (Decidable (_ ∧ _))

/-- Only when no entry is free is one thrown away, the oldest one if any has grown old. -/
theorem Evicts.full (h : a.Evicts ip (.update ip' mac)) (hip : ip.Plain) :
    (∀ i, (a.table i).ipaddr ≠ .zeroes) ∧
      ∀ i, a.age i ≤ a.age (a.slot ip') ∨ a.age i ≤ 0 := by
  obtain ⟨hne, hslot⟩ := h
  unfold slot at hslot ⊢
  dsimp only at hslot ⊢
  split at hslot
  · next i hfind =>
    have hi := List.find?_some hfind
    simp only [decide_eq_true_eq] at hi
    exact absurd (hi.2.2.trans hslot) hne
  · next hunknown =>
    split at hslot
    · next i hfind =>
      have hi : (a.table i).ipaddr = .zeroes := by simpa using List.find?_some hfind
      exact absurd (hslot.symm.trans hi) hip.ne_zeroes
    · next hused =>
      refine ⟨fun i => by simpa using List.find?_eq_none.mp hused i (List.mem_finRange i), ?_⟩
      obtain ⟨hseen, hbest⟩ :=
        foldl_oldest a.age (List.finRange 8) (p := (0, ⟨0, by decide⟩)) (.inr (Int.le_refl 0))
      intro i
      have hi := hseen i (List.mem_finRange i)
      exact hbest.imp (Int.le_trans hi) (Int.le_trans hi)

theorem Single.entry_update_of_ne (hs : a.Single) (hip : ip.Plain) (hne : ip' ≠ ip)
    (mac : List UInt8) :
    (a.update ip' mac).entry ip =
      if (a.table (a.slot ip')).ipaddr = ip then none else a.entry ip := by
  split
  · next hslot =>
    rw [entry_eq_none_iff]
    intro i hi
    by_cases h : i = a.slot ip'
    · rw [h, update_self] at hi
      exact hne hi
    · rw [update_of_ne ip' mac h] at hi
      exact h (hs i _ (hi ▸ hip) (hi.trans hslot.symm))
  · next hslot =>
    ext e
    rw [(hs.update ip' mac).entry_eq_some_iff hip,
      hs.entry_eq_some_iff hip]
    constructor
    · rintro ⟨i, rfl, hi⟩
      by_cases h : i = a.slot ip'
      · rw [h, update_self] at hi
        exact absurd hi hne
      · rw [update_of_ne ip' mac h] at hi ⊢
        exact ⟨i, rfl, hi⟩
    · rintro ⟨i, rfl, hi⟩
      have h : i ≠ a.slot ip' := by
        rintro rfl
        exact hslot hi
      exact ⟨i, update_of_ne ip' mac h, hi⟩

/-! ### The timer -/

/-- The entry expires at the next call of the timer. -/
def Expires (a : Arp) (e : ArpEntry) : Prop :=
  120 ≤ ((a.arptime + 1).toNat : Int) - e.time.toNat

instance (a : Arp) (e : ArpEntry) : Decidable (a.Expires e) := inferInstanceAs (Decidable (_ ≤ _))

theorem timer_table (a : Arp) (i : Fin 8) : a.timer.table i =
    if (a.table i).ipaddr.w0 ||| (a.table i).ipaddr.w1 ≠ 0 ∧ a.Expires (a.table i) then
      { a.table i with ipaddr := .zeroes }
    else a.table i := rfl

theorem Plain.or_ne_zero {ip : IpAddr} (h : ip.Plain) : ip.w0 ||| ip.w1 ≠ 0 := by
  intro hor
  exact h.1 (UInt16.or_eq_zero_iff.mp hor).1

theorem Single.timer (hs : a.Single) : a.timer.Single := by
  have hkept {i : Fin 8} (h : (a.timer.table i).ipaddr.Plain) :
      (a.timer.table i).ipaddr = (a.table i).ipaddr := by
    rw [timer_table] at h ⊢
    split at h
    · exact absurd rfl h.ne_zeroes
    · next hstays => rw [if_neg hstays]
  intro i j hplain h
  have hplain' : (a.timer.table j).ipaddr.Plain := by rwa [← h]
  rw [hkept hplain, hkept hplain'] at h
  exact hs i j (by rwa [← hkept hplain]) h

theorem Single.entry_timer (hs : a.Single) (hip : ip.Plain) (e : ArpEntry) :
    a.timer.entry ip = some e ↔ a.entry ip = some e ∧ ¬a.Expires e := by
  rw [hs.timer.entry_eq_some_iff hip, hs.entry_eq_some_iff hip]
  constructor
  · rintro ⟨i, rfl, hi⟩
    rw [timer_table] at hi ⊢
    split at hi
    · exact absurd hi.symm hip.ne_zeroes
    · next hstays =>
      rw [if_neg hstays]
      refine ⟨⟨i, rfl, hi⟩, fun hexpires => hstays ⟨?_, hexpires⟩⟩
      rw [hi]
      exact Plain.or_ne_zero hip
  · rintro ⟨⟨i, rfl, hi⟩, hstays⟩
    refine ⟨i, ?_, hi⟩
    rw [timer_table, if_neg fun h => hstays h.2]

/-! ### Runs -/

theorem Single.step (hs : a.Single) (op : Op) : (a.step op).Single := by
  cases op with
  | timer => exact hs.timer
  | update ip mac => exact hs.update ip mac

theorem init_single : init.Single := fun _ _ hplain _ => absurd rfl hplain.1

theorem run_single (ops : List Op) : (run step init ops).Single :=
  run_invariant (P := Single) (fun _ op h => h.step op) init_single ops

/-- What the table has for an address is what the abstract one has. -/
structure Caches (a : Arp) (m : IpAddr → Option (List UInt8)) : Prop where
  single : a.Single
  heard : ∀ ip mac, ip.Plain → a.lookup ip = some mac → m ip = some mac

theorem Caches.step {m : IpAddr → Option (List UInt8)} (h : a.Caches m) (op : Op) :
    (a.step op).Caches (hear m op) := by
  refine ⟨h.single.step op, fun ip mac hip hlookup => ?_⟩
  rw [lookup_eq_entry, Option.map_eq_some_iff] at hlookup
  obtain ⟨e, hentry, rfl⟩ := hlookup
  have hbefore {e : ArpEntry} (he : a.entry ip = some e) : m ip = some e.ethaddr := by
    refine h.heard ip _ hip ?_
    rw [lookup_eq_entry, he]
    rfl
  cases op with
  | timer => exact hbefore ((h.single.entry_timer hip e).mp hentry).1
  | update ip' mac =>
    change Function.update m ip' (some mac) ip = some e.ethaddr
    change (a.update ip' mac).entry ip = some e at hentry
    by_cases hne : ip' = ip
    · rw [hne, h.single.entry_update_self hip] at hentry
      obtain rfl := Option.some.inj hentry
      rw [hne, Function.update_self]
    · rw [h.single.entry_update_of_ne hip hne] at hentry
      rw [Function.update_of_ne (Ne.symm hne)]
      split at hentry
      · cases hentry
      · exact hbefore hentry

/-- A call is for another address, and leaves the entry of `ip` to the timer. -/
def Spares (ip : IpAddr) (a : Arp) (op : Op) : Prop :=
  (∀ mac, op ≠ .update ip mac) ∧ ¬a.Evicts ip op

/-- The age at which an entry expires is reached `n` calls of the timer after it was made at
`start`, before the clock comes round. -/
def Expired (start : UInt8) (n : Nat) : Prop := start.toNat ≤ 135 ∧ 120 ≤ n

instance (start : UInt8) (n : Nat) : Decidable (Expired start n) :=
  inferInstanceAs (Decidable (_ ∧ _))

theorem expired_succ {start : UInt8} {n : Nat} : Expired start (n + 1) ↔
    Expired start n ∨ 120 ≤ (((start.toNat + (n + 1)) % 256 : Nat) : Int) - start.toNat := by
  have hlt := start.toNat_lt
  unfold Expired
  omega

/-- The address was heard last when the clock of the entries was `start`, `n` calls of the timer
ago. -/
structure Ages (ip : IpAddr) (mac : List UInt8) (start : UInt8) (n : Nat) (a : Arp) : Prop where
  single : a.Single
  arptime : a.arptime.toNat = (start.toNat + n) % 256
  entry : a.entry ip = if Expired start n then none else some ⟨ip, mac, start⟩

theorem Ages.timer {start : UInt8} {n : Nat} (hip : ip.Plain) (h : Ages ip mac start n a) :
    Ages ip mac start (n + 1) a.timer := by
  have harptime : a.timer.arptime.toNat = (start.toNat + (n + 1)) % 256 := by
    change (a.arptime + 1).toNat = _
    have h1 : (1 : UInt8).toNat = 1 := rfl
    rw [UInt8.toNat_add, h.arptime, h1]
    omega
  refine ⟨h.single.timer, harptime, ?_⟩
  have hexpires : a.Expires ⟨ip, mac, start⟩ ↔
      120 ≤ (((start.toNat + (n + 1)) % 256 : Nat) : Int) - start.toNat := by
    rw [← harptime]
    exact Iff.rfl
  ext e
  rw [h.single.entry_timer hip, h.entry]
  by_cases hexpired : Expired start n
  · simp [hexpired, expired_succ]
  · rw [if_neg hexpired]
    constructor
    · rintro ⟨he, hstays⟩
      obtain rfl := Option.some.inj he
      rw [if_neg]
      rw [expired_succ, not_or, ← hexpires]
      exact ⟨hexpired, hstays⟩
    · intro he
      split at he
      · cases he
      · next hstays =>
        obtain rfl := Option.some.inj he
        rw [expired_succ, not_or, ← hexpires] at hstays
        exact ⟨rfl, hstays.2⟩

theorem Ages.step {start : UInt8} {n : Nat} (hip : ip.Plain) (h : Ages ip mac start n a) {op : Op}
    (hspares : Spares ip a op) :
    Ages ip mac start (n + if op = .timer then 1 else 0) (a.step op) := by
  cases op with
  | timer => exact h.timer hip
  | update ip' mac' =>
    have hne : ip' ≠ ip := by
      rintro rfl
      exact hspares.1 mac' rfl
    have hslot : (a.table (a.slot ip')).ipaddr ≠ ip := fun hslot => hspares.2 ⟨hne, hslot⟩
    refine ⟨h.single.update ip' mac', h.arptime, ?_⟩
    change (a.update ip' mac').entry ip = _
    rw [h.single.entry_update_of_ne hip hne, if_neg hslot, h.entry]
    rfl

theorem Ages.run {start : UInt8} {n : Nat} (hip : ip.Plain) (h : Ages ip mac start n a)
    {ops : List Op} (hspares : Along Arp.step (Spares ip) a ops) :
    Ages ip mac start (n + ops.count .timer) (run Arp.step a ops) := by
  induction ops generalizing a n with
  | nil => exact h
  | cons op ops ih =>
    have hstep := ih (h.step hip hspares.1) hspares.2
    rw [List.count_cons, Nat.add_comm (List.count _ ops), ← Nat.add_assoc]
    simpa using hstep

/-- An address that is heard when the clock of the entries is `start`, and then neither heard again
nor thrown away for another one, is known until the 120th call of the timer; and for good, if
`start` is more than 135. -/
theorem lookup_ages (before ops : List Op) (ip : IpAddr) (mac : List UInt8) (hip : ip.Plain)
    (hspares : Along step (Spares ip) ((run step init before).update ip mac) ops) :
    (run step ((run step init before).update ip mac) ops).lookup ip =
      if (run step init before).arptime.toNat ≤ 135 ∧ 120 ≤ ops.count .timer then none
      else some mac := by
  set a := run step init before
  have hsingle : a.Single := run_single before
  have hstart : Ages ip mac a.arptime 0 (a.update ip mac) := by
    refine ⟨hsingle.update ip mac, ?_, ?_⟩
    · exact (Nat.mod_eq_of_lt a.arptime.toNat_lt).symm
    · rw [hsingle.entry_update_self hip, if_neg fun h => absurd h.2 (by decide)]
  have hend := (hstart.run hip hspares).entry
  rw [lookup_eq_entry, hend, Nat.zero_add]
  change Option.map _ (if Expired a.arptime (ops.count .timer) then _ else _) =
    if Expired a.arptime (ops.count .timer) then _ else _
  split <;> rfl

/-- An address that is heard at the start, in a run with another one. -/
theorem lookup_ages_first :
    let ip : IpAddr := .ofBytes 10 0 0 2
    let ops : List Op := .update (.ofBytes 10 0 0 3) [] :: List.replicate 120 .timer
    ip.Plain ∧ Along step (Spares ip) ((run step init []).update ip [1]) ops ∧
      (run step ((run step init []).update ip [1]) ops).lookup ip =
        if (run step init []).arptime.toNat ≤ 135 ∧ 120 ≤ ops.count .timer then none
        else some [1] := by
  intro ip ops
  have hspares : Along step (Spares ip) ((run step init []).update ip [1]) ops := by
    refine ⟨⟨fun mac h => ?_, by decide⟩, along_of_forall (fun op hop a => ?_) _⟩
    · have hip : IpAddr.ofBytes 10 0 0 3 = IpAddr.ofBytes 10 0 0 2 := (Op.update.inj h).1
      exact absurd hip (by decide)
    · rw [List.eq_of_mem_replicate hop]
      refine ⟨fun mac h => ?_, id⟩
      cases h
  exact ⟨by decide, hspares, lookup_ages [] ops ip [1] (by decide) hspares⟩

end Arp

end OpenPLC
