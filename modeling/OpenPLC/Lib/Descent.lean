import Mathlib.Data.Bool.Basic
import Mathlib.Data.List.Chain
import Mathlib.Data.List.Dedup
import Mathlib.Data.List.Lex

/-! Enumeration of a set of words of bits by descents.  A descent learns at each level only whether
some of the words that remain go on with `true`, and whether some go on with `false`; it takes one
of the two branches, and the words of the other one drop out.  Where both branches are there, it
takes the one of the word that the descent before found, down to the level at which that one took
`true` last; there it takes `false`, and below it `true`.  One number, that level, is all that a
descent hands on to the next. -/

namespace Lib

namespace Descent

/-- The rest of a word that begins with `b`. -/
def rest? (b : Bool) : List Bool → Option (List Bool)
  | c :: w => if c = b then some w else none
  | [] => none

@[simp] theorem rest?_eq_some {b : Bool} {w r : List Bool} : rest? b w = some r ↔ w = b :: r := by
  cases w with
  | nil => simp [rest?]
  | cons c w =>
    simp only [rest?]
    split <;> simp_all

/-- The words that go on with `b`, without it. -/
def branch (b : Bool) (ws : List (List Bool)) : List (List Bool) := ws.filterMap (rest? b)

@[simp] theorem mem_branch {b : Bool} {ws : List (List Bool)} {w : List Bool} :
    w ∈ branch b ws ↔ b :: w ∈ ws := by
  simp [branch]

theorem length_branch {n : Nat} {ws : List (List Bool)} (hlen : ∀ w ∈ ws, w.length = n + 1)
    (b : Bool) : ∀ w ∈ branch b ws, w.length = n := fun w hw => by
  simpa using hlen _ (mem_branch.mp hw)

/-- The branch that a descent takes at level `n`, and the last level at which it took `true` of two
branches. -/
def choose (stop n : Nat) (word : List Bool) (ws : List (List Bool)) (last : Nat) : Bool × Nat :=
  if branch false ws = [] then (true, last)
  else if branch true ws = [] then (false, last)
  else if n < stop ∨ word.head? = some true ∧ stop ≠ n then (true, n)
  else (false, last)

/-- The descent from level `n`, after one that found `word` and ended with `stop`. -/
def descend (stop : Nat) : Nat → List Bool → List (List Bool) → Nat → Nat × List Bool
  | 0, _, _, last => (last, [])
  | n + 1, word, ws, last =>
    let (b, last) := choose stop (n + 1) word ws last
    let (last, found) := descend stop n word.tail (branch b ws) last
    (last, b :: found)

/-- Descents one after the other, at most `k`, until one ends with level 0. -/
def walk (n : Nat) (ws : List (List Bool)) : Nat → Nat → List Bool → List (List Bool)
  | 0, _, _ => []
  | k + 1, stop, word =>
    let (last, found) := descend stop n word ws 0
    found :: if last = 0 then [] else walk n ws k last found

/-- The words in order, `true` before `false`. -/
def ordered : Nat → List (List Bool) → List (List Bool)
  | 0, ws => if ws = [] then [] else [[]]
  | n + 1, ws =>
    (ordered n (branch true ws)).map (true :: ·) ++ (ordered n (branch false ws)).map (false :: ·)

/-- The last level at which `w` takes `true` of two branches. -/
def lastBranch : Nat → List (List Bool) → List Bool → Nat → Nat
  | n + 1, ws, b :: w, last =>
    lastBranch n (branch b ws) w
      (if b = true ∧ branch true ws ≠ [] ∧ branch false ws ≠ [] then n + 1 else last)
  | _, _, _, last => last

/-! ### The order of the words -/

theorem mem_ordered {n : Nat} {ws : List (List Bool)} {w : List Bool}
    (hlen : ∀ w ∈ ws, w.length = n) : w ∈ ordered n ws ↔ w ∈ ws := by
  induction n generalizing ws w with
  | zero =>
    simp only [List.length_eq_zero_iff] at hlen
    cases ws with
    | nil => simp [ordered]
    | cons v ws =>
      obtain rfl := hlen v List.mem_cons_self
      constructor
      · simp +contextual [ordered]
      · intro hw
        simp [ordered, hlen w hw]
  | succ n ih =>
    have hbranch (b : Bool) := length_branch hlen b
    simp only [ordered, List.mem_append, List.mem_map, ih (hbranch _), mem_branch]
    constructor
    · rintro (⟨v, hv, rfl⟩ | ⟨v, hv, rfl⟩) <;> exact hv
    · intro hw
      cases w with
      | nil => simpa using hlen _ hw
      | cons b w =>
        cases b
        · exact .inr ⟨w, hw, rfl⟩
        · exact .inl ⟨w, hw, rfl⟩

theorem ordered_pairwise (n : Nat) (ws : List (List Bool)) :
    (ordered n ws).Pairwise (List.Lex (· > ·)) := by
  induction n generalizing ws with
  | zero =>
    simp only [ordered]
    split <;> simp
  | succ n ih =>
    refine List.pairwise_append.mpr ⟨?_, ?_, ?_⟩
    · exact List.pairwise_map.mpr ((ih _).imp fun h => .cons h)
    · exact List.pairwise_map.mpr ((ih _).imp fun h => .cons h)
    · simp only [List.mem_map]
      rintro _ ⟨v, -, rfl⟩ _ ⟨w, -, rfl⟩
      exact .rel (by decide)

theorem ordered_perm {n : Nat} {ws : List (List Bool)} (hlen : ∀ w ∈ ws, w.length = n) :
    (ordered n ws).Perm ws.dedup := by
  refine (List.perm_ext_iff_of_nodup ?_ ws.nodup_dedup).mpr fun w => ?_
  · exact (ordered_pairwise n ws).imp fun h => (h.imp (fun _ _ => ne_of_gt) _ _).to_ne
  · rw [mem_ordered hlen, List.mem_dedup]

theorem ordered_eq_nil {n : Nat} {ws : List (List Bool)} (hlen : ∀ w ∈ ws, w.length = n) :
    ordered n ws = [] ↔ ws = [] := by
  simp only [List.eq_nil_iff_forall_not_mem, mem_ordered hlen]

/-! ### One descent -/

theorem choose_le {stop n k : Nat} {word : List Bool} {ws : List (List Bool)} {last : Nat}
    (hn : n ≤ k) (hlast : last ≤ k) : (choose stop n word ws last).2 ≤ k := by
  unfold choose
  split_ifs <;> assumption

theorem descend_le (stop : Nat) {n k : Nat} (word : List Bool) (ws : List (List Bool)) {last : Nat}
    (hn : n ≤ k) (hlast : last ≤ k) : (descend stop n word ws last).1 ≤ k := by
  induction n generalizing word ws last with
  | zero => exact hlast
  | succ n ih => exact ih _ _ (by omega) (choose_le hn hlast)

/-- A descent takes a branch that is there. -/
theorem branch_choose (stop : Nat) {n : Nat} (word : List Bool) {ws : List (List Bool)} (last : Nat)
    (hlen : ∀ w ∈ ws, w.length = n + 1) (hws : ws ≠ []) :
    branch (choose stop (n + 1) word ws last).1 ws ≠ [] := by
  have hsome : branch true ws ≠ [] ∨ branch false ws ≠ [] := by
    obtain ⟨w, hw⟩ := List.exists_mem_of_ne_nil ws hws
    obtain ⟨b, v, rfl⟩ := List.exists_cons_of_length_eq_add_one (hlen w hw)
    have hbranch : branch b ws ≠ [] := List.ne_nil_of_mem (mem_branch.mpr hw)
    cases b
    · exact .inr hbranch
    · exact .inl hbranch
  unfold choose
  split_ifs with hfalse htrue <;> simp_all

theorem choose_of_stop_gt {stop n : Nat} {word : List Bool} {ws : List (List Bool)} {last : Nat}
    (hstop : n < stop) (hws : branch true ws ≠ []) :
    choose stop n word ws last = (true, if branch false ws ≠ [] then n else last) := by
  by_cases hfalse : branch false ws = [] <;> simp [choose, hfalse, hws, hstop]

/-- Above the level at which it stops to follow the word before, a descent finds the first word. -/
theorem descend_first {stop n : Nat} {word w : List Bool} {ws : List (List Bool)}
    (hlen : ∀ w ∈ ws, w.length = n) (hstop : n < stop) (hw : w ∈ (ordered n ws).head?)
    (last : Nat) :
    descend stop n word ws last = (lastBranch n ws w last, w) := by
  induction n generalizing ws word w last with
  | zero =>
    obtain rfl : w = [] := by simpa using hlen w ((mem_ordered hlen).mp (List.mem_of_mem_head? hw))
    rfl
  | succ n ih =>
    have hbranch (b : Bool) := length_branch hlen b
    simp only [ordered, List.head?_append, List.head?_map] at hw
    by_cases htrue : branch true ws = []
    · rw [(ordered_eq_nil (hbranch true)).mpr htrue] at hw
      simp only [List.head?_nil, Option.map_none, Option.none_or, Option.mem_def,
        Option.map_eq_some_iff] at hw
      obtain ⟨v, hv, rfl⟩ := hw
      have hfalse : branch false ws ≠ [] := List.ne_nil_of_mem
        ((mem_ordered (hbranch false)).mp (List.mem_of_mem_head? hv))
      simp [descend, choose, hfalse, htrue, lastBranch, ih (hbranch false) (by omega) hv]
    · have hne : ordered n (branch true ws) ≠ [] := by rwa [Ne, ordered_eq_nil (hbranch true)]
      obtain ⟨v, hv⟩ := Option.isSome_iff_exists.mp (List.isSome_head?.mpr hne)
      rw [hv] at hw
      obtain rfl : true :: v = w := by simpa using hw
      simp [descend, choose_of_stop_gt hstop htrue, lastBranch, htrue,
        ih (hbranch true) (by omega) hv]

/-! ### One descent after the other -/

theorem lastBranch_last {n : Nat} {ws : List (List Bool)} (hlen : ∀ w ∈ ws, w.length = n)
    {w : List Bool} (hw : w ∈ (ordered n ws).getLast?) (last : Nat) :
    lastBranch n ws w last = last := by
  induction n generalizing ws w last with
  | zero => cases w <;> rfl
  | succ n ih =>
    have hbranch (b : Bool) := length_branch hlen b
    simp only [ordered, List.getLast?_append, List.getLast?_map, Option.mem_def] at hw
    by_cases hfalse : branch false ws = []
    · rw [(ordered_eq_nil (hbranch false)).mpr hfalse] at hw
      simp only [List.getLast?_nil, Option.map_none, Option.none_or, Option.map_eq_some_iff] at hw
      obtain ⟨v, hv, rfl⟩ := hw
      simp [lastBranch, hfalse, ih (hbranch true) hv]
    · have hne : ordered n (branch false ws) ≠ [] := by rwa [Ne, ordered_eq_nil (hbranch false)]
      obtain ⟨v, hv⟩ := Option.isSome_iff_exists.mp (List.getLast?_isSome.mpr hne)
      rw [hv] at hw
      obtain rfl : false :: v = w := by simpa using hw
      simp [lastBranch, ih (hbranch false) hv]

/-- While it follows a word, a descent takes the branch of the word. -/
theorem choose_follow {stop n : Nat} {b : Bool} {w : List Bool} {ws : List (List Bool)}
    (hstop : stop < n) (hb : branch b ws ≠ []) (last : Nat) :
    choose stop n (b :: w) ws last =
      (b, if b = true ∧ branch true ws ≠ [] ∧ branch false ws ≠ [] then n else last) := by
  have hlt : ¬n < stop := by omega
  have hne : stop ≠ n := by omega
  cases b
  · by_cases htrue : branch true ws = [] <;> simp [choose, hb, htrue, hlt]
  · by_cases hfalse : branch false ws = [] <;> simp [choose, hb, hfalse, hne]

/-- The descent after the one that found `w` finds `w'`. -/
structure Next (n : Nat) (ws : List (List Bool)) (w w' : List Bool) : Prop where
  pos : 0 < lastBranch n ws w 0
  le : lastBranch n ws w 0 ≤ n
  last (last : Nat) : lastBranch n ws w last = lastBranch n ws w 0
  descend (last : Nat) : descend (lastBranch n ws w 0) n w ws last = (lastBranch n ws w' last, w')

theorem Next.cons {n : Nat} {b : Bool} {ws : List (List Bool)} {w w' : List Bool}
    (h : Next n (branch b ws) w w') (hb : branch b ws ≠ []) :
    Next (n + 1) ws (b :: w) (b :: w') := by
  have hstop (last : Nat) :
      lastBranch (n + 1) ws (b :: w) last = lastBranch n (branch b ws) w 0 := h.last _
  refine ⟨?_, ?_, fun last => ?_, fun last => ?_⟩
  · rw [hstop]
    exact h.pos
  · rw [hstop]
    exact h.le.trans n.le_succ
  · rw [hstop, hstop]
  · rw [hstop, Descent.descend, choose_follow (Nat.lt_succ_of_le h.le) hb]
    simp only [List.tail_cons, h.descend]
    rfl

/-- From the last word with `true` the next descent goes to the first one with `false`. -/
theorem next_of_getLast {n : Nat} {ws : List (List Bool)} (hlen : ∀ w ∈ ws, w.length = n + 1)
    {w w' : List Bool} (hw : w ∈ (ordered n (branch true ws)).getLast?)
    (hw' : w' ∈ (ordered n (branch false ws)).head?) :
    Next (n + 1) ws (true :: w) (false :: w') := by
  have hbranch (b : Bool) := length_branch hlen b
  have htrue : branch true ws ≠ [] := List.ne_nil_of_mem
    ((mem_ordered (hbranch true)).mp (List.mem_of_getLast? hw))
  have hfalse : branch false ws ≠ [] := List.ne_nil_of_mem
    ((mem_ordered (hbranch false)).mp (List.mem_of_mem_head? hw'))
  have hstop (last : Nat) : lastBranch (n + 1) ws (true :: w) last = n + 1 := by
    simp [lastBranch, htrue, hfalse, lastBranch_last (hbranch true) hw]
  refine ⟨by rw [hstop]; omega, by rw [hstop], fun last => by rw [hstop, hstop], fun last => ?_⟩
  rw [hstop, Descent.descend]
  have hchoose : choose (n + 1) (n + 1) (true :: w) ws last = (false, last) := by
    simp [choose, htrue, hfalse]
  simp only [hchoose, List.tail_cons, descend_first (hbranch false) n.lt_succ_self hw']
  simp [lastBranch]

theorem ordered_isChain {n : Nat} {ws : List (List Bool)} (hlen : ∀ w ∈ ws, w.length = n) :
    (ordered n ws).IsChain (Next n ws) := by
  induction n generalizing ws with
  | zero =>
    simp only [ordered]
    split <;> simp
  | succ n ih =>
    have hbranch (b : Bool) := length_branch hlen b
    have hcons (b : Bool) : ((ordered n (branch b ws)).map (b :: ·)).IsChain (Next (n + 1) ws) := by
      by_cases hb : branch b ws = []
      · simp [(ordered_eq_nil (hbranch b)).mpr hb]
      · exact List.isChain_map_of_isChain _ (fun _ _ h => h.cons hb) (ih (hbranch b))
    refine (hcons true).append (hcons false) ?_
    simp only [List.getLast?_map, List.head?_map, Option.mem_def, Option.map_eq_some_iff]
    rintro _ ⟨w, hw, rfl⟩ _ ⟨w', hw', rfl⟩
    exact next_of_getLast hlen hw hw'

theorem walk_of_next {n : Nat} {ws : List (List Bool)} {w : List Bool} {rest : List (List Bool)}
    (hchain : (w :: rest).IsChain (Next n ws))
    (hlast : ∀ v ∈ (w :: rest).getLast?, lastBranch n ws v 0 = 0) (k : Nat) :
    (if lastBranch n ws w 0 = 0 then [] else walk n ws k (lastBranch n ws w 0) w) =
      rest.take k := by
  induction rest generalizing w k with
  | nil => simp [hlast w (by simp)]
  | cons v rest ih =>
    obtain ⟨hnext, hrest⟩ := List.isChain_cons_cons.mp hchain
    rw [if_neg hnext.pos.ne']
    cases k with
    | zero => rfl
    | succ k =>
      simp only [walk, hnext.descend, List.take_succ_cons]
      rw [ih hrest fun u hu => hlast u (by simpa using hu)]

/-- The descents find the words in order. -/
theorem walk_eq_take {n : Nat} {ws : List (List Bool)} (hlen : ∀ w ∈ ws, w.length = n)
    (hws : ws ≠ []) {stop : Nat} (hstop : n < stop) (k : Nat) (word : List Bool) :
    walk n ws k stop word = (ordered n ws).take k := by
  have hchain := ordered_isChain hlen
  have hlast : ∀ v ∈ (ordered n ws).getLast?, lastBranch n ws v 0 = 0 := fun v hv =>
    lastBranch_last hlen hv 0
  have hfirst : ∀ v ∈ (ordered n ws).head?, ∀ last, descend stop n word ws last =
    (lastBranch n ws v last, v) := fun v hv => descend_first hlen hstop hv
  cases k with
  | zero => simp [walk]
  | succ k =>
    cases horder : ordered n ws with
    | nil => exact absurd ((ordered_eq_nil hlen).mp horder) hws
    | cons w rest =>
      rw [horder] at hchain hlast hfirst
      simp only [walk, hfirst w (by simp), List.take_succ_cons, walk_of_next hchain hlast k]

end Descent

end Lib
