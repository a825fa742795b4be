import OpenPLC.Apps.Exchange

/-! The grammar of DHCP options.  An option area is a sequence of PAD bytes and options, closed by
END; `parse_options` takes a PAD for an option, so that it reads the byte after a PAD as a
length. -/

namespace OpenPLC

open Lib

namespace Dhcpc

/-- An option: its code and its value.  The options that the client knows have values that are long
enough. -/
structure Opt where
  code : UInt8
  value : List UInt8
  code_ne : code ≠ 0 ∧ code ≠ 255
  length_le : value.length ≤ 255
  length_ge : code ∈ [1, 3, 6, 51, 54] → 4 ≤ value.length
  type_length : code = 53 → value.length = 1

/-- A part of an option area. -/
inductive Item
  | pad
  | option (o : Opt)

namespace Item

def bytes : Item → List UInt8
  | pad => [0]
  | option o => o.code :: UInt8.ofNat o.value.length :: o.value

/-- The value of an option of a kind. -/
def value? (kind : UInt8) : Item → Option (List UInt8)
  | pad => none
  | option o => if o.code = kind then some o.value else none

end Item

/-- The bytes of an option area. -/
def area (items : List Item) : List UInt8 := items.flatMap Item.bytes ++ [255]

/-- The values of the options of a kind. -/
def values (kind : UInt8) (items : List Item) : List (List UInt8) :=
  items.filterMap (Item.value? kind)

@[simp] theorem values_nil (kind : UInt8) : values kind [] = [] := rfl

@[simp] theorem values_pad (kind : UInt8) (items : List Item) :
    values kind (.pad :: items) = values kind items := rfl

@[simp] theorem values_option (kind : UInt8) (o : Opt) (items : List Item) :
    values kind (.option o :: items) =
      if o.code = kind then o.value :: values kind items else values kind items := by
  simp only [values, List.filterMap_cons, Item.value?]
  split <;> simp_all

/-- Every run of PAD bytes has an even length, except the one before END if `last` holds. -/
def evenPads (last : Bool) : List Item → Bool
  | [] => true
  | [.pad] => last
  | .pad :: .pad :: items => evenPads last items
  | .pad :: .option _ :: _ => false
  | .option _ :: items => evenPads last items

theorem area_pad (items : List Item) : area (.pad :: items) = 0 :: area items := rfl

theorem area_option (o : Opt) (items : List Item) :
    area (.option o :: items) =
      o.code :: UInt8.ofNat o.value.length :: (o.value ++ area items) := by
  simp [area, Item.bytes]

theorem length_area_pos (items : List Item) : 0 < (area items).length := by simp [area]

variable {m : Mem} {items : List Item} {p end_ fuel : Nat} {last : Bool}

/-- One turn of the loop at an option, or at what it takes for one. -/
theorem optionPtrs_cons (hp : p < end_) (hne : m p ≠ 255) :
    optionPtrs m end_ (fuel + 1) p = p :: optionPtrs m end_ fuel (p + (m (p + 1)).toNat + 2) := by
  simp [optionPtrs, hp, hne]

theorem read_cons_inj {b : UInt8} {bs : List UInt8} (h : m.read p (b :: bs).length = b :: bs) :
    m p = b ∧ m.read (p + 1) bs.length = bs := by
  rw [List.length_cons, Mem.read_cons] at h
  exact List.cons.inj h

/-- Two turns of the grammar at a pair of PAD bytes are one turn of the loop. -/
theorem optionPtrs_pads (fuel : Nat) (hmem : m.read p (area (.pad :: .pad :: items)).length =
      area (.pad :: .pad :: items)) (hend : p + (area (.pad :: .pad :: items)).length ≤ end_) :
    m p = 0 ∧ m.read (p + 2) (area items).length = area items ∧
      optionPtrs m end_ (fuel + 1) p = p :: optionPtrs m end_ fuel (p + 2) := by
  obtain ⟨h0, hrest⟩ := read_cons_inj hmem
  obtain ⟨h1, hrest⟩ := read_cons_inj hrest
  simp only [area_pad, List.length_cons] at hend
  refine ⟨h0, hrest, ?_⟩
  rw [optionPtrs_cons (by omega) (by simp [h0]), h1]
  rfl

theorem optionPtrs_option {o : Opt} (fuel : Nat)
    (hmem : m.read p (area (.option o :: items)).length = area (.option o :: items))
    (hend : p + (area (.option o :: items)).length ≤ end_) :
    m p = o.code ∧ m.read (p + 2) o.value.length = o.value ∧
      m.read (p + (o.value.length + 2)) (area items).length = area items ∧
      optionPtrs m end_ (fuel + 1) p =
        p :: optionPtrs m end_ fuel (p + (o.value.length + 2)) := by
  rw [area_option] at hmem hend
  obtain ⟨hcode, hrest⟩ := read_cons_inj hmem
  obtain ⟨hlength, hrest⟩ := read_cons_inj hrest
  obtain ⟨hvalue, hrest⟩ := Mem.read_eq_append hrest
  simp only [List.length_cons] at hend
  have hnext : p + (m (p + 1)).toNat + 2 = p + (o.value.length + 2) := by
    have := o.length_le
    rw [hlength, UInt8.toNat_ofNat']
    omega
  refine ⟨hcode, hvalue, ?_, ?_⟩
  · rwa [show p + (o.value.length + 2) = p + 1 + 1 + o.value.length by omega]
  · rw [optionPtrs_cons (by omega) (by rw [hcode]; exact o.code_ne.2), hnext]

/-- The loop finds the values of the options of a kind, when every PAD comes in a pair or its jump
goes past the end. -/
theorem optionPtrs_values (heven : evenPads last items)
    (hmem : m.read p (area items).length = area items) (hend : p + (area items).length ≤ end_)
    (hfuel : (area items).length ≤ fuel) (hlast : last → end_ ≤ p + (area items).length + 255)
    {kind : UInt8} (hkind : kind ≠ 0) {n : Nat}
    (hn : ∀ o : Opt, o.code = kind → n ≤ o.value.length) :
    ((optionPtrs m end_ fuel p).filter fun q => m q = kind).map (fun q => m.read (q + 2) n) =
      (values kind items).map (List.take n) := by
  induction items using evenPads.induct generalizing p fuel with
  | case1 =>
    obtain ⟨hcode, -⟩ := read_cons_inj hmem
    cases fuel <;> simp [optionPtrs, hcode]
  | case2 =>
    obtain ⟨h0, hrest⟩ := read_cons_inj hmem
    obtain ⟨h1, -⟩ := read_cons_inj hrest
    have hlen : (area [.pad]).length = 2 := rfl
    rw [hlen] at hend hfuel
    obtain ⟨fuel, rfl⟩ : ∃ k, fuel = k + 1 := ⟨fuel - 1, by omega⟩
    have hstop : optionPtrs m end_ fuel (p + (255 : UInt8).toNat + 2) = [] := by
      have hjump := hlast heven
      rw [hlen] at hjump
      cases fuel with
      | zero => rfl
      | succ fuel => simp [optionPtrs, show ¬p + (255 + 2) < end_ by omega]
    rw [optionPtrs_cons (by omega) (by simp [h0]), h1, hstop]
    simp [h0, hkind.symm]
  | case3 items ih =>
    obtain ⟨h0, hrest, hturn⟩ := optionPtrs_pads (fuel - 1) hmem hend
    simp only [area_pad, List.length_cons] at hend hfuel hlast
    rw [Nat.sub_add_cancel (by omega)] at hturn
    rw [hturn]
    simpa [h0, hkind.symm] using ih (p := p + 2) heven hrest (by omega) (by omega)
      fun hl => by have := hlast hl; omega
  | case4 => cases heven
  | case5 o items ih =>
    obtain ⟨hcode, hvalue, hrest, hturn⟩ := optionPtrs_option (fuel - 1) hmem hend
    simp only [area_option, List.length_cons, List.length_append] at hend hfuel hlast
    rw [Nat.sub_add_cancel (by omega)] at hturn
    have ih' := ih heven hrest (by omega) (by omega : _ ≤ fuel - 1) fun hl => by
      have := hlast hl
      omega
    rw [hturn]
    by_cases hk : o.code = kind
    · have htake : m.read (p + 2) n = o.value.take n := by
        have hpre := List.prefix_iff_eq_take.mp (m.read_prefix (p + 2) (hn o hk))
        rwa [Mem.length_read, hvalue] at hpre
      simp [hcode, hk, ih', htake]
    · simp [hcode, hk, ih']

theorem lastOption_area (heven : evenPads last items)
    (hmem : m.read p (area items).length = area items) (hend : p + (area items).length ≤ end_)
    (hfuel : (area items).length ≤ fuel) (hlast : last → end_ ≤ p + (area items).length + 255)
    {kind : UInt8} (hkind : kind ≠ 0) {n : Nat}
    (hn : ∀ o : Opt, o.code = kind → n ≤ o.value.length) :
    (lastOption m (optionPtrs m end_ fuel p) kind).map (fun q => m.read q n) =
      (values kind items).getLast?.map (List.take n) := by
  rw [← List.getLast?_map, ← optionPtrs_values heven hmem hend hfuel hlast hkind hn,
    List.getLast?_map, lastOption, Option.map_map]
  rfl

/-- The result of `parse_options` by the grammar: the last value of each kind, or what was there. -/
structure Agrees (items : List Item) (s s' : Client) (type : UInt8) : Prop where
  type : type = ((values 53 items).getLast?.map (·.headD 0)).getD 0
  netmask : s'.netmask.bytes = ((values 1 items).getLast?.map (·.take 4)).getD s.netmask.bytes
  defaultRouter : s'.defaultRouter.bytes =
    ((values 3 items).getLast?.map (·.take 4)).getD s.defaultRouter.bytes
  dnsaddr : s'.dnsaddr.bytes = ((values 6 items).getLast?.map (·.take 4)).getD s.dnsaddr.bytes
  leaseTime :
    s'.leaseTime.bytes = ((values 51 items).getLast?.map (·.take 4)).getD s.leaseTime.bytes
  serverid : s'.serverid.bytes = ((values 54 items).getLast?.map (·.take 4)).getD s.serverid.bytes

theorem bytes_getD {α : Type*} (bytes : α → List UInt8) (load : Mem → Nat → α)
    (hload : ∀ m a, bytes (load m a) = m.read a 4) (m : Mem) (ptr : Option Nat) (x : α) :
    bytes ((ptr.map (load m)).getD x) = (ptr.map fun q => m.read q 4).getD (bytes x) := by
  cases ptr with
  | none => rfl
  | some q => exact hload m q

theorem parseOptions_agrees (heven : evenPads last items)
    (hmem : m.read p (area items).length = area items) (hend : p + (area items).length ≤ end_)
    (hfuel : (area items).length ≤ fuel) (hlast : last → end_ ≤ p + (area items).length + 255)
    (s : Client) :
    Agrees items s (parseOptions m end_ fuel p s 0).1 (parseOptions m end_ fuel p s 0).2 := by
  have hlong (o : Opt) {kind : UInt8} (hk : kind ∈ [1, 3, 6, 51, 54]) (h : o.code = kind) :
      4 ≤ o.value.length := o.length_ge (h ▸ hk)
  have hfield {kind : UInt8} (hk : kind ∈ [1, 3, 6, 51, 54]) (h0 : kind ≠ 0) :=
    lastOption_area heven hmem hend hfuel hlast h0 (n := 4) fun o => hlong o hk
  have htype := lastOption_area heven hmem hend hfuel hlast (by decide : (53 : UInt8) ≠ 0) (n := 1)
    fun o ho => (o.type_length ho).ge
  rw [parseOptions_eq, foldl_parseOption_client, foldl_parseOption_type]
  refine ⟨?_, ?_, ?_, ?_, ?_, ?_⟩
  · have hhead := congrArg (Option.map fun v : List UInt8 => v.headD 0) htype
    rw [Option.map_map, Option.map_map] at hhead
    have htake : (fun v : List UInt8 => v.headD 0) ∘ List.take 1 = fun v => v.headD 0 := by
      funext v
      cases v <;> rfl
    rw [← htake, ← hhead]
    rfl
  · rw [bytes_getD IpAddr.bytes IpAddr.load IpAddr.bytes_load, hfield (by decide) (by decide)]
  · rw [bytes_getD IpAddr.bytes IpAddr.load IpAddr.bytes_load, hfield (by decide) (by decide)]
  · rw [bytes_getD IpAddr.bytes IpAddr.load IpAddr.bytes_load, hfield (by decide) (by decide)]
  · rw [bytes_getD IpAddr.bytes IpAddr.load IpAddr.bytes_load, hfield (by decide) (by decide)]
  · rw [bytes_getD Quad.bytes Quad.load (fun _ _ => rfl), hfield (by decide) (by decide)]

theorem pad_mem_optionPtrs (hmem : m.read p (area (.pad :: items)).length = area (.pad :: items))
    (hend : p + (area (.pad :: items)).length ≤ end_) (hfuel : 0 < fuel) :
    p ∈ optionPtrs m end_ fuel p := by
  obtain ⟨h0, -⟩ := read_cons_inj hmem
  simp only [area_pad, List.length_cons] at hend
  obtain ⟨fuel, rfl⟩ : ∃ k, fuel = k + 1 := ⟨fuel - 1, by omega⟩
  rw [optionPtrs_cons (by omega) (by simp [h0])]
  exact List.mem_cons_self

/-- At a PAD that is the last one of an odd run, the loop is in step, and takes the next byte for a
length. -/
theorem exists_odd_pad (hodd : evenPads last items = false)
    (hmem : m.read p (area items).length = area items) (hend : p + (area items).length ≤ end_)
    (hfuel : (area items).length ≤ fuel) :
    ∃ pre post, items = pre ++ .pad :: post ∧ post.head? ≠ some .pad ∧
      p + (pre.flatMap Item.bytes).length ∈ optionPtrs m end_ fuel p := by
  have hpos := Nat.lt_of_lt_of_le (length_area_pos items) hfuel
  induction items using evenPads.induct generalizing p fuel with
  | case1 => cases hodd
  | case2 => exact ⟨[], [], rfl, nofun, pad_mem_optionPtrs hmem hend hpos⟩
  | case3 items ih =>
    obtain ⟨-, hrest, hturn⟩ := optionPtrs_pads (fuel - 1) hmem hend
    simp only [area_pad, List.length_cons] at hend hfuel
    rw [Nat.sub_add_cancel hpos] at hturn
    obtain ⟨pre, post, rfl, hpost, hptr⟩ := ih hodd hrest (by omega) (by omega : _ ≤ fuel - 1)
      (by omega)
    refine ⟨.pad :: .pad :: pre, post, rfl, hpost, ?_⟩
    rw [hturn]
    refine List.mem_cons_of_mem p ?_
    simpa [Item.bytes, Nat.add_assoc, Nat.add_comm 2] using hptr
  | case4 o items => exact ⟨[], _, rfl, nofun, pad_mem_optionPtrs hmem hend hpos⟩
  | case5 o items ih =>
    obtain ⟨-, -, hrest, hturn⟩ := optionPtrs_option (fuel - 1) hmem hend
    simp only [area_option, List.length_cons, List.length_append] at hend hfuel
    rw [Nat.sub_add_cancel hpos] at hturn
    obtain ⟨pre, post, rfl, hpost, hptr⟩ := ih hodd hrest (by omega) (by omega : _ ≤ fuel - 1)
      (by have := length_area_pos items; omega)
    refine ⟨.option o :: pre, post, rfl, hpost, ?_⟩
    rw [hturn]
    refine List.mem_cons_of_mem p ?_
    simpa [Item.bytes, Nat.add_assoc, Nat.add_comm 2] using hptr

/-- On an option area inside the bytes that `parse_options` looks at, its result is that of the
grammar if every run of PAD bytes has an even length, or is the one before END and its jump leaves
these bytes.  Else the loop takes a byte after a PAD, the code of an option or END, for the length
of the PAD. -/
theorem parseOptions_grammar (m : Mem) (optptr len : Nat) (items : List Item)
    (hmem : m.read optptr (area items).length = area items) (hlen : (area items).length ≤ len)
    (s : Client) :
    let last := decide (len ≤ (area items).length + 255)
    let r := parseOptions m (optptr + len) len optptr s 0
    (evenPads last items = true → Agrees items s r.1 r.2) ∧
      (evenPads last items = false → ∃ pre post, items = pre ++ .pad :: post ∧
        post.head? ≠ some .pad ∧
        optptr + (pre.flatMap Item.bytes).length ∈ optionPtrs m (optptr + len) len optptr) := by
  intro last r
  refine ⟨fun heven => ?_, fun hodd => exists_odd_pad hodd hmem (by omega) hlen⟩
  refine parseOptions_agrees heven hmem (by omega) hlen (fun hl => ?_) s
  have := of_decide_eq_true hl
  omega

/-- A message type of DHCPACK. -/
def ackType : Opt := ⟨53, [5], by decide, by decide, by decide, by decide⟩

/-- A subnet mask. -/
def mask24 : Opt := ⟨1, [255, 255, 255, 0], by decide, by decide, by decide, by decide⟩

/-- The memory with an option area at the options of a message. -/
def withArea (items : List Item) : Mem := fun i => (area items).getD (i - 240) 0

/-- A pair of PAD bytes between options, and a single one before END. -/
theorem parseOptions_grammar_pair :
    let items := [.option ackType, .pad, .pad, .option mask24, .pad]
    let s : Client := .zero (List.replicate 6 0) rfl
    let r := parseOptions (withArea items) (240 + 260) 260 240 s 0
    Agrees items s r.1 r.2 ∧ (values 53 items).getLast? = some [5] ∧
      (values 1 items).getLast? = some [255, 255, 255, 0] :=
  ⟨(parseOptions_grammar (withArea _) 240 260 _ (by decide) (by decide) (.zero _ rfl)).1
      (by decide),
    by decide, by decide⟩

/-- A single PAD hides the message type after it. -/
theorem not_parseOptions_grammar :
    let items := [.pad, .option ackType]
    let s : Client := .zero (List.replicate 6 0) rfl
    let r := parseOptions (withArea items) (240 + 245) 245 240 s 0
    (withArea items).read 240 (area items).length = area items ∧ r.2 = 0 ∧
      ¬Agrees items s r.1 r.2 := by
  intro items s r
  have hnone : r.2 = 0 := by decide +kernel
  exact ⟨by decide, hnone, fun h => absurd (hnone.symm.trans h.type) (by decide)⟩

end Dhcpc

end OpenPLC
