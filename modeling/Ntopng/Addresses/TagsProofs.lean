/-
  Ntopng.Addresses.TagsProofs — what host tags answer, live and after a restart
  (src/TagsConfiguration.cpp, src/VLANAddressTree.cpp, src/AddressTree.cpp).

  Proved, of every sequence of calls that sets no key to the bitmap of all tags and names
  no IPv6 address whose text has a dot or scans as a MAC:
  (1) every key answers with the bitmap set last for its MAC or address, and with no tags
      if there was none (`tags_law`, `run_answers`);
  (2) the configuration read from redis answers every query the same, whatever order the
      keys come in, exactly when the keys of one MAC agree: each that is still stored was
      left with the MAC's last bitmap (`reload_iff`).
  Each exception is one. The bitmap of all tags is the `-1` that stands for no number, and
  the tree stores its count of addresses instead (`all_tags_lost`).
-/

import Ntopng.Addresses.TagsText

namespace Ntopng.Addresses.Tags

open Ntopng.Lib.Prefixes
open Ntopng.Lib.LastWrite

variable {E : Env} {valid : E.P.Tree → Prop}

/-! ## One tree -/

theorem length_bits (ipa : IpAddress) : ipa.bits.length = ipa.width := by
  cases ipa with
  | v4 a => exact a.property
  | v6 a => exact a.property

/-- All bits of an address. -/
def prefixOf (ipa : IpAddress) : Prefix Family := ⟨ipa.family, ipa.bits, ipa.width, (length_bits ipa).ge⟩

theorem prefixOf_bits (ipa : IpAddress) : (prefixOf ipa).bits = ipa.bits :=
  List.take_of_length_le (length_bits ipa).le

theorem fillPrefix_prefixOf (ipa : IpAddress) :
    fillPrefix ipa.family ipa.bits ipa.width ipa.width = some (prefixOf ipa) := by
  have hlen := length_bits ipa
  have hb : 0 ≤ (ipa.width : Int) ∧ (ipa.width : Int).toNat ≤ ipa.width ∧ (ipa.width : Int).toNat ≤ ipa.bits.length := by
    omega
  unfold fillPrefix
  rw [dif_pos hb]
  rfl

theorem eq_of_bits {j ipa : IpAddress} (hf : j.family = ipa.family) (hb : j.bits = ipa.bits) : j = ipa := by
  cases j with
  | v4 a =>
    cases ipa with
    | v4 b => exact congrArg IpAddress.v4 (Subtype.ext hb)
    | v6 b => cases hf
  | v6 a =>
    cases ipa with
    | v4 b => cases hf
    | v6 b => exact congrArg IpAddress.v6 (Subtype.ext hb)

def isV4 (ipa : IpAddress) : Bool := decide (ipa.family = .inet)

theorem family_of_isV4 {j ipa : IpAddress} (h : isV4 j = isV4 ipa) : j.family = ipa.family ∧ j.width = ipa.width := by
  cases j with
  | v4 a =>
    cases ipa with
    | v4 b => exact ⟨rfl, rfl⟩
    | v6 b => cases h
  | v6 a =>
    cases ipa with
    | v4 b => cases h
    | v6 b => exact ⟨rfl, rfl⟩

/-- The width of a tree. -/
def widthOf (v4 : Bool) : Nat := if v4 then 32 else 128

theorem widthOf_isV4 (ipa : IpAddress) : widthOf (isV4 ipa) = ipa.width := by
  cases ipa with
  | v4 a => rfl
  | v6 a => rfl

/-- A tree is there, and its nodes are whole addresses. -/
def FullTree (valid : E.P.Tree → Prop) (o : Option (PTree E.P)) (w : Nat) : Prop :=
  ∃ q, o = some q ∧ q.maxbits = w ∧ valid q.tree ∧ ∀ n ∈ E.P.nodes q.tree, n.key.bitlen = w

def Full (valid : E.P.Tree → Prop) (a : AddressTree E) : Prop := ∀ b, FullTree valid (a.getTree b) (widthOf b)

theorem full_init (hP : Patricia.Numbers E.P valid) : Full valid (.init true : AddressTree E) := by
  intro b
  refine ⟨.new (widthOf b), ?_, rfl, hP.new _, fun n hn => ?_⟩
  · cases b <;> rfl
  · rw [PTree.new, E.P.nodes_new] at hn
    cases hn

theorem getTree_setTree (a : AddressTree E) (b b' : Bool) (o : Option (PTree E.P)) :
    (a.setTree b o).getTree b' = if b' = b then o else a.getTree b' := by
  cases b <;> cases b' <;> rfl

theorem treeOf_eq (a : AddressTree E) (ipa : IpAddress) : treeOf a ipa = a.getTree (isV4 ipa) := by
  cases ipa with
  | v4 a => rfl
  | v6 a => rfl

/-- The number that a search in a tree answers with. -/
def answer (o : Option (PTree E.P)) (p : Prefix Family) : Int64 :=
  match o with
  | none => -1
  | some q => ((E.P.number q.tree p).map UInt64.toInt64).getD (-1)

theorem nodeAnswer_fst (o : Option (Node Family)) :
    (AddressTree.nodeAnswer o).1 = ((o.map Node.data).map UInt64.toInt64).getD (-1) := by
  cases o with
  | none => rfl
  | some n => rfl

theorem findAddress_answer {a : AddressTree E} (h : Full valid a) (ipa : IpAddress) :
    (a.findAddress ipa.family ipa.bits).1 = answer (a.getTree (isV4 ipa)) (prefixOf ipa) := by
  obtain ⟨q, hq, hmax, -⟩ := h (isV4 ipa)
  rw [widthOf_isV4] at hmax
  have hfill := fillPrefix_prefixOf ipa
  rw [← hmax] at hfill
  rw [hq]
  simp only [answer, Patricia.number, ← nodeAnswer_fst]
  cases ipa with
  | v4 b =>
    have h4 : a.ptreeV4 = some q := hq
    have hfill' : fillPrefix .inet b.val 32 q.maxbits = some (prefixOf (.v4 b)) := by
      rw [hmax] at hfill ⊢
      exact hfill
    simp only [AddressTree.findAddress, IpAddress.family, IpAddress.bits, h4, Option.map_some, Nat.cast_ofNat,
      hfill', Option.bind_some]
  | v6 b =>
    have h6 : a.ptreeV6 = some q := hq
    have hfill' : fillPrefix .inet6 b.val 128 q.maxbits = some (prefixOf (.v6 b)) := by
      rw [hmax] at hfill ⊢
      exact hfill
    simp only [AddressTree.findAddress, IpAddress.family, IpAddress.bits, h6, Option.map_some, Nat.cast_ofNat,
      hfill', Option.bind_some]

/-- A new tree has no address. -/
theorem findAddress_init (hP : Patricia.Numbers E.P valid) (ipa : IpAddress) :
    ((.init true : AddressTree E).findAddress ipa.family ipa.bits).1 = -1 := by
  rw [findAddress_answer (full_init hP)]
  have hget : (.init true : AddressTree E).getTree (isV4 ipa) = some (.new (widthOf (isV4 ipa))) := by
    cases isV4 ipa <;> rfl
  rw [hget]
  simp only [answer, PTree.new, Patricia.number_new, Option.map_none, Option.getD_none]

theorem lookup_self (k : Nat) (v : Int64) (l : List (Nat × Int64)) : List.lookup k ((k, v) :: l) = some v := by
  rw [List.lookup_cons, beq_self_eq_true]

theorem lookup_ne {j k : Nat} (h : j ≠ k) (v : Int64) (l : List (Nat × Int64)) :
    List.lookup j ((k, v) :: l) = List.lookup j l := by
  rw [List.lookup_cons, beq_eq_false_iff_ne.mpr h]

theorem lookup_insertMac (k : Nat) (v : Int64) (l : List (Nat × Int64)) (j : Nat) :
    (insertMac k v l).lookup j = if j = k then some v else l.lookup j := by
  induction l with
  | nil =>
    by_cases hj : j = k
    · rw [if_pos hj, hj]
      exact lookup_self k v []
    · rw [if_neg hj]
      exact lookup_ne hj v []
  | cons e l ih =>
    obtain ⟨i, w⟩ := e
    unfold insertMac
    by_cases hlt : k < i
    · rw [if_pos hlt]
      by_cases hj : j = k
      · rw [if_pos hj, hj, lookup_self]
      · rw [if_neg hj, lookup_ne hj]
    · rw [if_neg hlt]
      by_cases hki : k = i
      · rw [if_pos hki]
        by_cases hj : j = k
        · rw [if_pos hj, hj, lookup_self]
        · rw [if_neg hj, lookup_ne hj, lookup_ne fun h => hj (h.trans hki.symm)]
      · rw [if_neg hki]
        by_cases hji : j = i
        · rw [hji, lookup_self, lookup_self, if_neg fun h => hki h.symm]
        · rw [lookup_ne hji, lookup_ne hji, ih]

theorem mac2int_inj {l l' : List UInt8} (hlen : l.length = l'.length) (h : mac2int l = mac2int l') : l = l' := by
  induction l generalizing l' with
  | nil => exact (List.length_eq_zero_iff.mp hlen.symm).symm
  | cons b l ih =>
    cases l' with
    | nil => cases hlen
    | cons b' l' =>
      have h' : b.toNat + 256 * mac2int l = b'.toNat + 256 * mac2int l' := h
      have hb := b.toNat_lt
      have hb' := b'.toNat_lt
      have hbb : b.toNat = b'.toNat := by omega
      have hll : mac2int l = mac2int l' := by omega
      rw [UInt8.toNat_inj.mp hbb, ih (Nat.succ_inj.mp hlen) hll]

/-- A MAC that is added has its number, and all else is as before. -/
theorem addAddress_mac {a : AddressTree E} (h : Full valid a) {what : List Char} {m : MacAddress}
    (hscan : scanMac what = some m.val) {id : Int64} (hid : id ≠ -1) :
    ∃ a', a.addAddress what id = some (true, a') ∧ Full valid a' ∧
      (∀ j : IpAddress, (a'.findAddress j.family j.bits).1 = (a.findAddress j.family j.bits).1) ∧
      ∀ j : MacAddress, a'.findMac j.val = if j = m then id else a.findMac j.val := by
  have hadd : a.addAddress what id = some (true, { a with macs := insertMac (mac2int m.val) id a.macs }) := by
    unfold AddressTree.addAddress
    simp only [if_neg hid, hscan]
  refine ⟨_, hadd, fun b => ?_, fun j => rfl, fun j => ?_⟩
  · have := h b
    cases b <;> exact this
  · unfold AddressTree.findMac
    rw [lookup_insertMac]
    by_cases hj : j = m
    · rw [hj, if_pos rfl, if_pos rfl, Option.getD_some]
    · have hne : mac2int j.val ≠ mac2int m.val := fun heq =>
        hj (Subtype.ext (mac2int_inj (j.property.trans m.property.symm) heq))
      rw [if_neg hne, if_neg hj]

/-- The number kept for an address. -/
def numberOf (a : AddressTree E) (ipa : IpAddress) : Option UInt64 :=
  (a.getTree (isV4 ipa)).bind fun q => E.P.number q.tree (prefixOf ipa)

theorem findAddress_number {a : AddressTree E} (h : Full valid a) (ipa : IpAddress) :
    (a.findAddress ipa.family ipa.bits).1 = ((numberOf a ipa).map UInt64.toInt64).getD (-1) := by
  rw [findAddress_answer h, numberOf]
  cases a.getTree (isV4 ipa) <;> rfl

/-- An address that is added has its number, and the others keep theirs. -/
theorem addAddress_number (hP : Patricia.Numbers E.P valid) {a : AddressTree E} (h : Full valid a) {what : List Char}
    {ipa : IpAddress} (hscan : scanMac what = none) (hdot : decide ('.' ∈ what) = isV4 ipa)
    (hrule : ∀ t, E.ptreeAddRule t what = E.addToPtree t ipa.family ipa.bits ipa.width) {id : Int64} (hid : id ≠ -1) :
    ∃ a', a.addAddress what id = some (true, a') ∧ Full valid a' ∧
      (∀ j : IpAddress, numberOf a' j = if j = ipa then some id.toUInt64 else numberOf a j) ∧ a'.macs = a.macs := by
  obtain ⟨q, hq, hmax, hvalid, hnodes⟩ := h (isV4 ipa)
  have hw := widthOf_isV4 ipa
  obtain ⟨t', hlookup, hset, hwset, hnumber⟩ :=
    hP.number_set hvalid hnodes (p := prefixOf ipa) hw.symm id.toUInt64
  have hfill : fillPrefix ipa.family ipa.bits ipa.width q.maxbits = some (prefixOf ipa) := by
    rw [hmax, hw]
    exact fillPrefix_prefixOf ipa
  have hptree : E.addToPtree (some q) ipa.family ipa.bits ipa.width =
      some (some (prefixOf ipa), some { q with tree := t' }) := by
    unfold Env.addToPtree
    simp only [hfill, hlookup]
  let q' : PTree E.P := { q with tree := E.P.setU64 t' (prefixOf ipa) id.toUInt64 }
  have hadd : ∃ a', a.addAddress what id = some (true, a') ∧
      (∀ b, a'.getTree b = if b = isV4 ipa then some q' else a.getTree b) ∧ a'.macs = a.macs := by
    refine ⟨{ (a.setTree (isV4 ipa) (some { q with tree := t' })).setNodeU64 (isV4 ipa) (prefixOf ipa) id.toUInt64 with
      numAddresses := a.numAddresses + 1 }, ?_, ?_, ?_⟩
    · unfold AddressTree.addAddress
      simp only [if_neg hid, hscan, hdot, hq, hrule, hptree]
    · intro b
      have hget : ((a.setTree (isV4 ipa) (some { q with tree := t' })).setTree (isV4 ipa) (some q')).getTree b =
          if b = isV4 ipa then some q' else a.getTree b := by
        rw [getTree_setTree, getTree_setTree]
        by_cases hb : b = isV4 ipa
        · rw [if_pos hb, if_pos hb]
        · rw [if_neg hb, if_neg hb, if_neg hb]
      have hsame : (a.setTree (isV4 ipa) (some { q with tree := t' })).setNodeU64 (isV4 ipa) (prefixOf ipa) id.toUInt64 =
          (a.setTree (isV4 ipa) (some { q with tree := t' })).setTree (isV4 ipa) (some q') := by
        unfold AddressTree.setNodeU64
        rw [getTree_setTree, if_pos rfl]
        rfl
      rw [← hget, ← hsame]
      cases b <;> rfl
    · cases isV4 ipa <;> rfl
  obtain ⟨a', hadd, hget, hmacs⟩ := hadd
  have hfull : Full valid a' := by
    intro b
    rw [hget]
    by_cases hb : b = isV4 ipa
    · rw [if_pos hb]
      exact ⟨q', rfl, hb ▸ hmax, hset, hb ▸ hwset⟩
    · rw [if_neg hb]
      exact h b
  refine ⟨a', hadd, hfull, fun j => ?_, hmacs⟩
  rw [numberOf, numberOf, hget]
  by_cases hb : isV4 j = isV4 ipa
  · obtain ⟨hf, hjw⟩ := family_of_isV4 hb
    have hnum := hnumber (prefixOf j) (hjw.trans hw.symm)
    rw [prefixOf_bits, prefixOf_bits] at hnum
    rw [if_pos hb, hb, hq, Option.bind_some, Option.bind_some]
    refine hnum.trans (if_congr ?_ rfl rfl)
    exact ⟨eq_of_bits hf, fun hj => hj ▸ rfl⟩
  · have hj : j ≠ ipa := fun hj => hb (hj ▸ rfl)
    rw [if_neg hb, if_neg hj]

/-- The same of what is looked up. -/
theorem addAddress_ip (hP : Patricia.Numbers E.P valid) {a : AddressTree E} (h : Full valid a) {what : List Char}
    {ipa : IpAddress} (hscan : scanMac what = none) (hdot : decide ('.' ∈ what) = isV4 ipa)
    (hrule : ∀ t, E.ptreeAddRule t what = E.addToPtree t ipa.family ipa.bits ipa.width) {id : Int64} (hid : id ≠ -1) :
    ∃ a', a.addAddress what id = some (true, a') ∧ Full valid a' ∧
      (∀ j : IpAddress, (a'.findAddress j.family j.bits).1 =
        if j = ipa then id else (a.findAddress j.family j.bits).1) ∧
      ∀ j : MacAddress, a'.findMac j.val = a.findMac j.val := by
  obtain ⟨a', hadd, hfull, hnumber, hmacs⟩ := addAddress_number hP h hscan hdot hrule hid
  refine ⟨a', hadd, hfull, fun j => ?_, fun j => ?_⟩
  · rw [findAddress_number hfull, findAddress_number h, hnumber]
    by_cases hj : j = ipa
    · rw [if_pos hj, if_pos hj]
      rfl
    · rw [if_neg hj, if_neg hj]
  · unfold AddressTree.findMac
    rw [hmacs]

/-! ## The table of trees -/

theorem vlanIndex_eq (v : UInt16) : vlanIndex v = v.toNat % maxNumVlan := by
  unfold vlanIndex
  rw [UInt16.toNat_and]
  exact Nat.and_two_pow_sub_one_eq_mod v.toNat 12

theorem vlanIndex_vlanId (v : VlanId) : vlanIndex v.val = v.val.toNat := by
  rw [vlanIndex_eq]
  exact Nat.mod_eq_of_lt v.property

def AllFull (valid : E.P.Tree → Prop) (t : VLANAddressTree E) : Prop := ∀ i a, t.tree i = some a → Full valid a

/-- Every lookup there is: of a MAC in VLAN 0, of an address in its VLAN. -/
def lookup (t : VLANAddressTree E) : Target → Int64
  | .mac m => t.findMac 0 m.val
  | .ip a vlan => t.findAddress vlan.val a.family a.bits

/-- The VLAN of a target. -/
def Target.index : Target → Nat
  | .mac _ => 0
  | .ip _ vlan => vlan.val.toNat

/-- What one tree answers. -/
def treeLookup (a : AddressTree E) : Target → Int64
  | .mac m => a.findMac m.val
  | .ip ipa _ => (a.findAddress ipa.family ipa.bits).1

theorem lookup_eq (t : VLANAddressTree E) (tg : Target) :
    lookup t tg = match t.tree tg.index with
      | some a => treeLookup a tg
      | none => -1 := by
  cases tg with
  | mac m =>
    have h0 : vlanIndex 0 = 0 := by decide
    simp only [lookup, VLANAddressTree.findMac, h0, Target.index]
    rfl
  | ip a vlan =>
    simp only [lookup, VLANAddressTree.findAddress, vlanIndex_vlanId, Target.index]
    rfl

theorem lookup_empty (tg : Target) : lookup (.empty : VLANAddressTree E) tg = -1 := lookup_eq _ tg

theorem treeLookup_init (hP : Patricia.Numbers E.P valid) (tg : Target) :
    treeLookup (.init true : AddressTree E) tg = -1 := by
  cases tg with
  | mac m => rfl
  | ip a vlan => exact findAddress_init hP a

theorem lookup_getOrCreate (hP : Patricia.Numbers E.P valid) (t : VLANAddressTree E) (tg : Target) :
    lookup t tg = treeLookup (t.getOrCreate tg.index) tg := by
  rw [lookup_eq]
  unfold VLANAddressTree.getOrCreate
  cases t.tree tg.index with
  | none => exact (treeLookup_init hP tg).symm
  | some a => rfl

theorem full_getOrCreate (hP : Patricia.Numbers E.P valid) {t : VLANAddressTree E} (h : AllFull valid t) (i : Nat) :
    Full valid (t.getOrCreate i) := by
  unfold VLANAddressTree.getOrCreate
  cases hi : t.tree i with
  | none => exact full_init hP
  | some a => exact h i a hi

/-- An addition to the tree of one VLAN that changes one answer of it changes that answer alone. -/
theorem addAddress_table (hP : Patricia.Numbers E.P valid) {t : VLANAddressTree E} (h : AllFull valid t)
    {vlanId : UInt16} {what : List Char} {id : Int64} {k : Target} (hk : vlanIndex vlanId = k.index)
    {a' : AddressTree E} {ok : Bool} (hadd : (t.getOrCreate k.index).addAddress what id = some (ok, a'))
    (hfull : Full valid a')
    (hanswers : ∀ tg, tg.index = k.index →
      treeLookup a' tg = if tg = k then id else treeLookup (t.getOrCreate k.index) tg) :
    ∃ t', t.addAddress vlanId what id = some (ok, t') ∧ AllFull valid t' ∧
      ∀ tg, lookup t' tg = if tg = k then id else lookup t tg := by
  refine ⟨⟨Function.update t.tree k.index (some a'), t.numAddresses + 1⟩, ?_, ?_, fun tg => ?_⟩
  · unfold VLANAddressTree.addAddress
    simp only [hk, hadd, Option.map_some]
  · intro i a ha
    by_cases hi : i = k.index
    · rw [hi] at ha
      simp only [Function.update_self, Option.some.injEq] at ha
      rw [← ha]
      exact hfull
    · simp only [Function.update_of_ne hi] at ha
      exact h i a ha
  · rw [lookup_eq, lookup_getOrCreate hP t]
    by_cases hi : tg.index = k.index
    · simp only [hi, Function.update_self]
      exact hanswers tg hi
    · have hne : tg ≠ k := fun heq => hi (heq ▸ rfl)
      simp only [Function.update_of_ne hi, if_neg hne]
      rw [← lookup_getOrCreate hP t, lookup_eq]

/-! ## One call -/

/-- A call that the tree can keep. An IPv6 address is written so that it does not read as a
MAC and has no dot, and the tags are not all set. -/
def Good (E : Env) (e : Key × UInt64) : Prop :=
  e.2 ≠ 0xFFFFFFFFFFFFFFFF ∧
    match e.1 with
    | .ip (.v6 a) _ => '.' ∉ E.inetNtop6 a.val ∧ scanMac (E.inetNtop6 a.val) = none
    | _ => True

theorem toInt64_ne {b : UInt64} (h : b ≠ 0xFFFFFFFFFFFFFFFF) : b.toInt64 ≠ -1 := by
  intro h1
  have hb : b = (-1 : Int64).toUInt64 := by rw [← h1]; rfl
  exact h hb

theorem addrPart_ip_no (hE : TextOk E) (a : IpAddress) (vlan : VlanId) :
    before '@' ((Key.ip a vlan).addrPart E) = ipText E a ∧
      after '@' ((Key.ip a vlan).addrPart E) = some (decimal vlan.val.toNat) :=
  ⟨before_append (ipText_no_at hE a), after_append (ipText_no_at hE a)⟩

/-- What the tree makes of the text of an address. -/
theorem ipText_rule (hE : TextOk E) {a : IpAddress} {vlan : VlanId} {b : UInt64} (hgood : Good E (.ip a vlan, b)) :
    scanMac (ipText E a) = none ∧ decide ('.' ∈ ipText E a) = isV4 a ∧
      ∀ t, E.ptreeAddRule t (ipText E a) = E.addToPtree t a.family a.bits a.width := by
  cases a with
  | v4 a =>
    refine ⟨scanMac_sep (intoaV4_ne (by decide) (by decide)), ?_, fun t => ptreeAddRule_v4 t a⟩
    have hdot : '.' ∈ intoaV4 a.val := by
      rw [intoaV4_eq]
      exact List.mem_append_right _ (List.mem_cons_self ..)
    exact decide_eq_true hdot
  | v6 a =>
    obtain ⟨hdot, hmac⟩ := hgood.2
    exact ⟨hmac, decide_eq_false hdot, fun t => ptreeAddRule_v6 hE t hmac⟩

theorem addToTree_ip (hE : TextOk E) (t : VLANAddressTree E) {key : List Char} {b : UInt64} {a : IpAddress}
    {vlan : VlanId} (hkey : after '_' key = some ((Key.ip a vlan).addrPart E)) :
    addToTree t key b = (t.addAddress vlan.val (ipText E a) b.toInt64).map Prod.snd := by
  obtain ⟨hbefore, hafter⟩ := addrPart_ip_no hE a vlan
  have hlen := ipText_length hE a
  unfold addToTree
  simp only [hkey, hafter, hbefore, atoi16_decimal]
  rw [if_neg (by omega)]

theorem addToTree_mac (t : VLANAddressTree E) {key : List Char} {b : UInt64} {m : MacAddress} {s : Suffix}
    (hkey : after '_' key = some ((Key.mac m s).addrPart E)) :
    addToTree t key b = (t.addAddress 0 (formatMac m.val ++ s.text) b.toInt64).map Prod.snd := by
  have hafter : after '@' ((Key.mac m s).addrPart E) = none := after_none (mac_no_at m s)
  unfold addToTree
  simp only [hkey, hafter]
  rfl

/-- A good call is a write to the one target of its key. -/
theorem addToTree_good (hE : TextOk E) (hP : Patricia.Numbers E.P valid) {t : VLANAddressTree E} (h : AllFull valid t)
    (ifaceId : Nat) {e : Key × UInt64} (hgood : Good E e) :
    ∃ t', addToTree t (e.1.text E ifaceId) e.2 = some t' ∧ AllFull valid t' ∧
      ∀ tg, lookup t' tg = if tg = e.1.target then e.2.toInt64 else lookup t tg := by
  obtain ⟨k, b⟩ := e
  have hkey := after_text (E := E) ifaceId k
  have hid := toInt64_ne hgood.1
  cases k with
  | mac m s =>
    have hindex : vlanIndex 0 = (Target.mac m).index := (by decide : vlanIndex 0 = 0)
    have hfull := full_getOrCreate hP h (Target.mac m).index
    obtain ⟨a', hadd, hfull', hip, hmac⟩ := addAddress_mac hfull (scanMac_formatMac m s) hid
    obtain ⟨t', ht', hall, hlookup⟩ :=
      addAddress_table hP h hindex hadd hfull' fun tg htg => by
        cases tg with
        | mac j => simpa only [treeLookup, Target.mac.injEq] using hmac j
        | ip j vlan => simpa only [treeLookup, reduceCtorEq, if_false] using hip j
    refine ⟨t', ?_, hall, hlookup⟩
    rw [addToTree_mac t hkey, ht']
    rfl
  | ip a vlan =>
    obtain ⟨hscan, hdot, hrule⟩ := ipText_rule hE hgood
    have hindex : vlanIndex vlan.val = (Target.ip a vlan).index := vlanIndex_vlanId vlan
    have hfull := full_getOrCreate hP h (Target.ip a vlan).index
    obtain ⟨a', hadd, hfull', hip, hmac⟩ := addAddress_ip hP hfull hscan hdot hrule hid
    obtain ⟨t', ht', hall, hlookup⟩ :=
      addAddress_table hP h hindex hadd hfull' fun tg htg => by
        cases tg with
        | mac j => simpa only [treeLookup, reduceCtorEq, if_false] using hmac j
        | ip j w =>
          have hw : w = vlan := Subtype.ext (UInt16.toNat_inj.mp htg)
          simpa only [treeLookup, Target.ip.injEq, hw, and_true] using hip j
    refine ⟨t', ?_, hall, hlookup⟩
    rw [addToTree_ip hE t hkey, ht']
    rfl

/-! ## Queries -/

/-- The tags of a target. -/
def bitmapOf (t : VLANAddressTree E) (tg : Target) : UInt64 := tagsOf (lookup t tg)

/-- The VLAN of a lookup counts with its twelve bits. -/
theorem findAddress_congr {t t' : VLANAddressTree E} (h : ∀ tg, bitmapOf t tg = bitmapOf t' tg) (v : UInt16)
    (ipa : IpAddress) :
    tagsOf (t.findAddress v ipa.family ipa.bits) = tagsOf (t'.findAddress v ipa.family ipa.bits) := by
  have hlt : vlanIndex v < maxNumVlan := by
    rw [vlanIndex_eq]
    exact Nat.mod_lt _ (by decide)
  have hindex : vlanIndex v = vlanIndex (v &&& 0xFFF) := by
    rw [vlanIndex_vlanId ⟨v &&& 0xFFF, hlt⟩]
    rfl
  have hw := h (.ip ipa ⟨v &&& 0xFFF, hlt⟩)
  simp only [bitmapOf, lookup, VLANAddressTree.findAddress, ← hindex] at hw
  exact hw

/-- Every query, of any text, is about a target. -/
theorem getTags_congr {t t' : VLANAddressTree E} (h : ∀ tg, bitmapOf t tg = bitmapOf t' tg) (key : List Char) :
    getTags t key = getTags t' key := by
  unfold getTags
  cases hpart : after '_' key with
  | none => rfl
  | some addrPart =>
    simp only
    cases hvlan : after '@' addrPart with
    | none => exact h (.mac ⟨parseMac addrPart, parseMacLoop_length 6 addrPart⟩)
    | some vlan =>
      simp only
      by_cases hlen : (before '@' addrPart).length ≥ 64
      · rw [if_pos hlen, if_pos hlen]
      · rw [if_neg hlen, if_neg hlen]
        by_cases hdot : '.' ∈ before '@' addrPart
        · rw [if_pos hdot, if_pos hdot]
          cases hpton : E.inetPton4 (before '@' addrPart) with
          | none => rfl
          | some a => exact findAddress_congr h (atoi16 vlan) (.v4 a)
        · rw [if_neg hdot, if_neg hdot]
          cases hpton : E.inetPton6 (before '@' addrPart) with
          | none => rfl
          | some a => exact findAddress_congr h (atoi16 vlan) (.v6 a)

/-- A key asks for its target, unless it is an IPv6 address whose text has a dot. -/
theorem getTags_text (hE : TextOk E) (t : VLANAddressTree E) (ifaceId : Nat) (k : Key) :
    getTags t (k.text E ifaceId) = bitmapOf t k.target ∨
      (getTags t (k.text E ifaceId) = 0 ∧ ∀ b, ¬ Good E (k, b)) := by
  have hkey := after_text (E := E) ifaceId k
  cases k with
  | mac m s =>
    have hafter : after '@' ((Key.mac m s).addrPart E) = none := after_none (mac_no_at m s)
    refine .inl ?_
    unfold getTags
    simp only [hkey, hafter]
    show tagsOf (t.findMac 0 (parseMac (formatMac m.val ++ s.text))) = _
    rw [parseMac_formatMac]
    rfl
  | ip a vlan =>
    obtain ⟨hbefore, hafter⟩ := addrPart_ip_no hE a vlan
    have hlen := ipText_length hE a
    have hget : getTags t ((Key.ip a vlan).text E ifaceId) =
        if '.' ∈ ipText E a then
          (E.inetPton4 (ipText E a)).elim 0 fun a => tagsOf (t.findAddress vlan.val .inet a.val)
        else (E.inetPton6 (ipText E a)).elim 0 fun a => tagsOf (t.findAddress vlan.val .inet6 a.val) := by
      unfold getTags
      simp only [hkey, hafter, hbefore, atoi16_decimal]
      rw [if_neg (by omega : ¬ (ipText E a).length ≥ 64)]
      by_cases hdot : '.' ∈ ipText E a
      · rw [if_pos hdot, if_pos hdot]
        cases E.inetPton4 (ipText E a) with
        | none => rfl
        | some b => rfl
      · rw [if_neg hdot, if_neg hdot]
        cases E.inetPton6 (ipText E a) with
        | none => rfl
        | some b => rfl
    cases a with
    | v4 a =>
      have hdot : '.' ∈ ipText E (.v4 a) := by
        show '.' ∈ intoaV4 a.val
        rw [intoaV4_eq]
        exact List.mem_append_right _ (List.mem_cons_self ..)
      have hpton : E.inetPton4 (ipText E (.v4 a)) = some a := hE.pton4 a
      refine .inl ?_
      rw [hget, if_pos hdot, hpton]
      rfl
    | v6 a =>
      by_cases hdot : '.' ∈ ipText E (.v6 a)
      · refine .inr ⟨?_, fun b hb => hb.2.1 hdot⟩
        have hpton : E.inetPton4 (ipText E (.v6 a)) = none := hE.pton4_colon _ (hE.ntop6_colon a)
        rw [hget, if_pos hdot, hpton]
        rfl
      · have hpton : E.inetPton6 (ipText E (.v6 a)) = some a := hE.pton6 a
        refine .inl ?_
        rw [hget, if_neg hdot, hpton]
        rfl

/-! ## Runs -/

def targets (h : List (Key × UInt64)) : List (Target × UInt64) := h.map fun e => (e.1.target, e.2)

theorem targets_append (h g : List (Key × UInt64)) : targets (h ++ g) = targets h ++ targets g := List.map_append

/-- A stored value, or none. -/
def stored (b : Option UInt64) : Option (List Char) := b.bind fun b => if b = 0 then none else some (decimal b.toNat)

/-- What holds after the calls `h`. -/
structure After (valid : E.P.Tree → Prop) (ifaceId : Nat) (h : List (Key × UInt64)) (s : State E) : Prop where
  full : AllFull valid s.tree
  tree : ∀ tg, lookup s.tree tg = ((last (targets h) tg).map UInt64.toInt64).getD (-1)
  redis : ∀ k : Key, s.redis (redisKey (k.text E ifaceId)) = stored (last h k)
  keys : ∀ rk, (s.redis rk).isSome → keysPattern ifaceId <+: rk → ∃ e ∈ h, rk = redisKey (e.1.text E ifaceId)

theorem after_nil (hE : TextOk E) {ifaceId : Nat} (hid : ifaceId < 2 ^ 31) {r : Redis}
    (hr : ∀ rk, keysPattern ifaceId <+: rk → r rk = none) : After valid ifaceId [] (⟨.empty, r⟩ : State E) where
  full i a ha := by cases ha
  tree tg := lookup_empty tg
  redis k := hr _ (keysPattern_redisKey hE hid k)
  keys rk hsome hpattern := by
    have hsome' : (r rk).isSome := hsome
    rw [hr rk hpattern] at hsome'
    cases hsome'

theorem storeToRedis_self (r : Redis) (key : List Char) (b : UInt64) :
    storeToRedis r key b (redisKey key) = stored (some b) := by
  unfold storeToRedis
  by_cases hb : b = 0
  · rw [if_pos hb, Function.update_self]
    simp [stored, hb]
  · rw [if_neg hb, Function.update_self]
    simp [stored, hb]

theorem storeToRedis_ne {r : Redis} {key rk : List Char} (b : UInt64) (h : rk ≠ redisKey key) :
    storeToRedis r key b rk = r rk := by
  unfold storeToRedis
  split
  · exact Function.update_of_ne h _ _
  · exact Function.update_of_ne h _ _

theorem setTags_after (hE : TextOk E) (hP : Patricia.Numbers E.P valid) {ifaceId : Nat} (hid : ifaceId < 2 ^ 31)
    {h : List (Key × UInt64)} {s : State E} (hs : After valid ifaceId h s) {e : Key × UInt64} (hgood : Good E e) :
    ∃ s', setTags s (e.1.text E ifaceId) e.2 = some s' ∧ After valid ifaceId (h ++ [e]) s' := by
  obtain ⟨t', hadd, hfull, hlookup⟩ := addToTree_good hE hP hs.full ifaceId hgood
  refine ⟨⟨t', storeToRedis s.redis (e.1.text E ifaceId) e.2⟩, ?_, hfull, fun tg => ?_, fun k => ?_, fun rk hsome hp => ?_⟩
  · unfold setTags
    rw [if_neg (text_ne_nil ifaceId e.1), hadd, Option.map_some]
  · have htargets : targets (h ++ [e]) = targets h ++ [(e.1.target, e.2)] := targets_append h [e]
    rw [hlookup, htargets]
    by_cases htg : tg = e.1.target
    · rw [if_pos htg, htg, last_append_self]
      rfl
    · rw [if_neg htg, last_append_ne _ _ htg, hs.tree]
  · by_cases hk : k = e.1
    · rw [hk]
      exact (storeToRedis_self _ _ _).trans (congrArg stored (last_append_self h e.1 e.2).symm)
    · have hne : redisKey (k.text E ifaceId) ≠ redisKey (e.1.text E ifaceId) := fun heq => hk (redisKey_inj hE hid heq)
      exact (storeToRedis_ne _ hne).trans ((hs.redis k).trans (congrArg stored (last_append_ne h e.2 hk).symm))
  · by_cases hrk : rk = redisKey (e.1.text E ifaceId)
    · exact ⟨e, List.mem_append_right _ (List.mem_singleton_self _), hrk⟩
    · have hsame := storeToRedis_ne (r := s.redis) e.2 hrk
      have hsome' : (s.redis rk).isSome := hsame ▸ hsome
      obtain ⟨d, hd, heq⟩ := hs.keys rk hsome' hp
      exact ⟨d, List.mem_append_left _ hd, heq⟩

theorem run_after (hE : TextOk E) (hP : Patricia.Numbers E.P valid) {ifaceId : Nat} (hid : ifaceId < 2 ^ 31)
    {g : List (Key × UInt64)} {s : State E} (hs : After valid ifaceId g s) (h : List (Key × UInt64))
    (hgood : ∀ e ∈ h, Good E e) : ∃ s', run ifaceId h s = some s' ∧ After valid ifaceId (g ++ h) s' := by
  induction h generalizing g s with
  | nil => exact ⟨s, rfl, by rw [List.append_nil]; exact hs⟩
  | cons e h ih =>
    obtain ⟨s1, hset, hs1⟩ := setTags_after hE hP hid hs (hgood e (List.mem_cons_self ..))
    obtain ⟨s2, hrun, hs2⟩ := ih hs1 fun d hd => hgood d (List.mem_cons_of_mem _ hd)
    refine ⟨s2, ?_, by rw [← List.append_cons] at hs2; exact hs2⟩
    show (setTags s (e.1.text E ifaceId) e.2).bind (run ifaceId h) = some s2
    rw [hset, Option.bind_some, hrun]

theorem tagsOf_toInt64 {b : UInt64} (h : b ≠ 0xFFFFFFFFFFFFFFFF) : tagsOf b.toInt64 = b := by
  unfold tagsOf
  rw [if_neg (toInt64_ne h)]
  rfl

/-- Numbers that are not all ones are read as they were written. -/
theorem tagsOf_last {h : List (Key × UInt64)} (hgood : ∀ e ∈ h, Good E e) (tg : Target) :
    tagsOf (((last (targets h) tg).map UInt64.toInt64).getD (-1)) = (last (targets h) tg).getD 0 := by
  cases hl : last (targets h) tg with
  | none => decide
  | some b =>
    obtain ⟨e, he, heq⟩ := List.mem_map.mp (last_mem hl)
    have hb : e.2 = b := congrArg Prod.snd heq
    exact tagsOf_toInt64 (hb ▸ (hgood e he).1)

theorem bitmapOf_after {ifaceId : Nat} {h : List (Key × UInt64)} {s : State E} (hs : After valid ifaceId h s)
    (hgood : ∀ e ∈ h, Good E e) (tg : Target) : bitmapOf s.tree tg = (last (targets h) tg).getD 0 := by
  unfold bitmapOf
  rw [hs.tree]
  exact tagsOf_last hgood tg

/-- Every key answers with the bitmap that was set last. -/
theorem run_answers (hE : TextOk E) {ifaceId : Nat} {h : List (Key × UInt64)} {s : State E}
    (hs : After valid ifaceId h s) (hgood : ∀ e ∈ h, Good E e) (k : Key) :
    getTags s.tree (k.text E ifaceId) = (last (targets h) k.target).getD 0 := by
  rcases getTags_text hE s.tree ifaceId k with hget | ⟨hzero, hnever⟩
  · rw [hget, bitmapOf_after hs hgood]
  · have hnone : last (targets h) k.target = none := by
      rw [last_none_iff]
      intro b hmem
      obtain ⟨e, he, heq⟩ := List.mem_map.mp hmem
      -- an address has one key
      have hk : e.1 = k := by
        have htg : e.1.target = k.target := congrArg Prod.fst heq
        cases hkk : k with
        | mac m s =>
          have hzero : Good E (Key.mac m s, 0) := ⟨(by decide : (0 : UInt64) ≠ 0xFFFFFFFFFFFFFFFF), trivial⟩
          exact absurd hzero (hkk ▸ hnever 0)
        | ip a v =>
          rw [hkk] at htg
          cases hek : e.1 with
          | mac m s => rw [hek] at htg; cases htg
          | ip a' v' =>
            rw [hek] at htg
            cases htg
            rfl
      exact hnever e.2 (hk ▸ hgood e he)
    rw [hzero, hnone, Option.getD_none]

/-! ## Read from redis -/

/-- A call whose bitmap is stored: what one key of `KEYS` stands for. -/
def Stored (E : Env) (ifaceId : Nat) (r : Redis) (e : Key × UInt64) : Prop :=
  r (redisKey (e.1.text E ifaceId)) = some (decimal e.2.toNat) ∧ e.2 ≠ 0 ∧ Good E e

theorem decimal_take (b : UInt64) : (decimal b.toNat).take 31 = decimal b.toNat := by
  refine List.take_of_length_le ?_
  have hlt := b.toNat_lt
  have h20 : (decimal b.toNat).length ≤ 20 := (Nat.length_toDigits_le_iff (by decide) (by decide)).mpr (by omega)
  exact h20.trans (by decide)

theorem loadKey_stored (hE : TextOk E) {ifaceId : Nat} (hid : ifaceId < 2 ^ 31) {r : Redis} {e : Key × UInt64}
    (h : Stored E ifaceId r e) (t : VLANAddressTree E) :
    loadKey r t (redisKey (e.1.text E ifaceId)) = addToTree t (e.1.text E ifaceId) e.2 := by
  obtain ⟨hget, hne, -⟩ := h
  have hdrop : (redisKey (e.1.text E ifaceId)).drop bitmapPrefix.length = e.1.text E ifaceId := by
    rw [redisKey_text hE hid]
    exact List.drop_left
  unfold loadKey
  simp only [hget, decimal_take, strtoull_decimal, hdrop]
  rw [if_pos hne]

/-- The keys in the order they come are writes in that order. -/
theorem load_stored (hE : TextOk E) (hP : Patricia.Numbers E.P valid) {ifaceId : Nat} (hid : ifaceId < 2 ^ 31)
    {r : Redis} (cs : List (Key × UInt64)) (hcs : ∀ e ∈ cs, Stored E ifaceId r e) {t : VLANAddressTree E}
    (ht : AllFull valid t) :
    ∃ t', loadFromRedis r (cs.map fun e => redisKey (e.1.text E ifaceId)) t = some t' ∧ AllFull valid t' ∧
      ∀ tg, lookup t' tg = ((last (targets cs) tg).map UInt64.toInt64).getD (lookup t tg) := by
  induction cs generalizing t with
  | nil => exact ⟨t, rfl, ht, fun tg => rfl⟩
  | cons e cs ih =>
    have he := hcs e (List.mem_cons_self ..)
    obtain ⟨t1, hadd, ht1, hlookup1⟩ := addToTree_good hE hP ht ifaceId he.2.2
    obtain ⟨t2, hload, ht2, hlookup2⟩ := ih (fun d hd => hcs d (List.mem_cons_of_mem _ hd)) ht1
    refine ⟨t2, ?_, ht2, fun tg => ?_⟩
    · rw [List.map_cons, loadFromRedis, loadKey_stored hE hid he, hadd, Option.bind_some, hload]
    · have hcons : targets (e :: cs) = (e.1.target, e.2) :: targets cs := rfl
      rw [hlookup2, hlookup1, hcons, last_cons]
      cases last (targets cs) tg with
      | some b => rfl
      | none =>
        by_cases htg : tg = e.1.target
        · rw [if_pos htg, if_pos htg]
          rfl
        · rw [if_neg htg, if_neg htg]
          rfl

theorem stored_some {o : Option UInt64} {s : List Char} (h : stored o = some s) :
    ∃ b, o = some b ∧ b ≠ 0 ∧ s = decimal b.toNat := by
  cases o with
  | none => cases h
  | some b =>
    by_cases hb : b = 0
    · simp [stored, hb] at h
    · refine ⟨b, rfl, hb, ?_⟩
      simpa [stored, hb] using h.symm

section Reload

variable {ifaceId : Nat} {h : List (Key × UInt64)} {s : State E}

/-- A stored key is the last, non-zero bitmap of a key that was called. -/
theorem stored_iff (hs : After valid ifaceId h s) (hgood : ∀ e ∈ h, Good E e) (e : Key × UInt64) :
    Stored E ifaceId s.redis e ↔ last h e.1 = some e.2 ∧ e.2 ≠ 0 := by
  unfold Stored
  rw [hs.redis]
  constructor
  · rintro ⟨hget, hne, -⟩
    obtain ⟨b, hb, -, hdec⟩ := stored_some hget
    have hval := congrArg strtoull hdec
    rw [strtoull_decimal, strtoull_decimal] at hval
    exact ⟨hval ▸ hb, hne⟩
  · rintro ⟨hlast, hne⟩
    refine ⟨?_, hne, hgood e (last_mem hlast)⟩
    rw [hlast]
    simp [stored, hne]

/-- An answer of `KEYS` lists what is stored. -/
theorem keysAnswer_calls (hE : TextOk E) (hid : ifaceId < 2 ^ 31) (hs : After valid ifaceId h s)
    (hgood : ∀ e ∈ h, Good E e) {keys : List (List Char)} (hk : KeysAnswer s.redis ifaceId keys) :
    ∃ cs : List (Key × UInt64), keys = cs.map (fun e => redisKey (e.1.text E ifaceId)) ∧
      (∀ e ∈ cs, Stored E ifaceId s.redis e) ∧ ∀ e, Stored E ifaceId s.redis e → e ∈ cs := by
  have hone : ∀ rk ∈ keys, ∃ e, redisKey (e.1.text E ifaceId) = rk ∧ Stored E ifaceId s.redis e := by
    intro rk hrk
    obtain ⟨hsome, hpattern⟩ := (hk.mem_iff rk).mp hrk
    obtain ⟨d, -, rfl⟩ := hs.keys rk hsome hpattern
    obtain ⟨val, hval⟩ := Option.isSome_iff_exists.mp hsome
    have hget := hval
    rw [hs.redis] at hget
    obtain ⟨b, hb, hne, -⟩ := stored_some hget
    exact ⟨(d.1, b), rfl, (stored_iff hs hgood (d.1, b)).mpr ⟨hb, hne⟩⟩
  have hlist : ∃ cs : List (Key × UInt64), keys = cs.map (fun e => redisKey (e.1.text E ifaceId)) ∧
      ∀ e ∈ cs, Stored E ifaceId s.redis e := by
    clear hk
    induction keys with
    | nil => exact ⟨[], rfl, fun e he => by cases he⟩
    | cons rk keys ih =>
      obtain ⟨e, he, hst⟩ := hone rk (List.mem_cons_self ..)
      obtain ⟨cs, hcs, hall⟩ := ih fun rk' hrk' => hone rk' (List.mem_cons_of_mem _ hrk')
      refine ⟨e :: cs, by rw [List.map_cons, he, hcs], fun d hd => ?_⟩
      rcases List.mem_cons.mp hd with rfl | hd
      · exact hst
      · exact hall d hd
  obtain ⟨cs, rfl, hall⟩ := hlist
  refine ⟨cs, rfl, hall, fun e he => ?_⟩
  have hmem : redisKey (e.1.text E ifaceId) ∈ cs.map fun e => redisKey (e.1.text E ifaceId) :=
    (hk.mem_iff _).mpr ⟨by rw [he.1]; rfl, keysPattern_redisKey hE hid e.1⟩
  obtain ⟨d, hd, heq⟩ := List.mem_map.mp hmem
  have hde : d.1 = e.1 := redisKey_inj hE hid heq
  have h1 := ((stored_iff hs hgood d).mp (hall d hd)).1
  have h2 := ((stored_iff hs hgood e).mp he).1
  rw [hde, h2] at h1
  have hval : e.2 = d.2 := Option.some.inj h1
  have : e = d := Prod.ext hde.symm hval
  exact this ▸ hd

/-- The keys of one target agree: what a key was left with is what its target was left with, or nothing. -/
def Coherent (h : List (Key × UInt64)) : Prop :=
  ∀ k b, last h k = some b → b ≠ 0 → last (targets h) k.target = some b

/-- What the stored calls write is, when they agree, what the calls had left. -/
theorem last_stored (hs : After valid ifaceId h s) (hgood : ∀ e ∈ h, Good E e) (hc : Coherent h)
    {cs : List (Key × UInt64)} (hall : ∀ e ∈ cs, Stored E ifaceId s.redis e)
    (hmem : ∀ e, Stored E ifaceId s.redis e → e ∈ cs) (tg : Target) :
    (last (targets cs) tg).getD 0 = (last (targets h) tg).getD 0 := by
  have hagree : ∀ b, (tg, b) ∈ targets cs → last (targets h) tg = some b := by
    intro b hb
    obtain ⟨e, he, heq⟩ := List.mem_map.mp hb
    obtain ⟨hlast, hne⟩ := (stored_iff hs hgood e).mp (hall e he)
    have htg : e.1.target = tg := congrArg Prod.fst heq
    have hval : e.2 = b := congrArg Prod.snd heq
    have := hc e.1 e.2 hlast hne
    rw [htg, hval] at this
    exact this
  cases hcs : last (targets cs) tg with
  | some b => rw [hagree b (last_mem hcs)]
  | none =>
    cases hl : last (targets h) tg with
    | none => rfl
    | some b =>
      by_cases hb : b = 0
      · rw [hb]
        rfl
      · obtain ⟨k, hk, hlast⟩ := last_map_mem Key.target hl
        have hst : Stored E ifaceId s.redis (k, b) := (stored_iff hs hgood (k, b)).mpr ⟨hlast, hb⟩
        have htargets : (tg, b) ∈ targets cs := List.mem_map.mpr ⟨(k, b), hmem _ hst, by rw [hk]⟩
        exact absurd htargets (last_none_iff.mp hcs b)

/-- A configuration read from redis, in any order of the keys, answers as the live one. -/
def Reloads (ifaceId : Nat) (s : State E) : Prop :=
  ∀ keys, KeysAnswer s.redis ifaceId keys →
    ∃ t : VLANAddressTree E, loadFromRedis s.redis keys .empty = some t ∧ ∀ key, getTags t key = getTags s.tree key

theorem load_answers (hE : TextOk E) (hP : Patricia.Numbers E.P valid) (hid : ifaceId < 2 ^ 31)
    {r : Redis} {cs : List (Key × UInt64)} (hcs : ∀ e ∈ cs, Stored E ifaceId r e) :
    ∃ t : VLANAddressTree E, loadFromRedis r (cs.map fun e => redisKey (e.1.text E ifaceId)) .empty = some t ∧
      ∀ tg, bitmapOf t tg = (last (targets cs) tg).getD 0 := by
  have hempty : AllFull valid (.empty : VLANAddressTree E) := fun i a ha => by cases ha
  obtain ⟨t, hload, -, hlookup⟩ := load_stored hE hP hid cs hcs hempty
  refine ⟨t, hload, fun tg => ?_⟩
  unfold bitmapOf
  rw [hlookup, lookup_empty]
  exact tagsOf_last (fun e he => (hcs e he).2.2) tg

/-- `KEYS` may list any stored key last. -/
theorem keysAnswer_last (hE : TextOk E) (hid : ifaceId < 2 ^ 31) (hs : After valid ifaceId h s)
    {e : Key × UInt64} (he : Stored E ifaceId s.redis e) :
    ∃ keys, KeysAnswer s.redis ifaceId (keys ++ [redisKey (e.1.text E ifaceId)]) := by
  let base := (h.map fun d => redisKey (d.1.text E ifaceId)).dedup.filter fun rk => (s.redis rk).isSome
  have hbase : KeysAnswer s.redis ifaceId base := by
    refine ⟨(List.nodup_dedup _).filter _, fun rk => ?_⟩
    simp only [base, List.mem_filter, List.mem_dedup, List.mem_map]
    constructor
    · rintro ⟨⟨d, -, rfl⟩, hsome⟩
      exact ⟨hsome, keysPattern_redisKey hE hid d.1⟩
    · rintro ⟨hsome, hpattern⟩
      obtain ⟨d, hd, rfl⟩ := hs.keys rk hsome hpattern
      exact ⟨⟨d, hd, rfl⟩, hsome⟩
  have hmem : redisKey (e.1.text E ifaceId) ∈ base :=
    (hbase.mem_iff _).mpr ⟨by rw [he.1]; rfl, keysPattern_redisKey hE hid e.1⟩
  have hperm : (base.erase (redisKey (e.1.text E ifaceId)) ++ [redisKey (e.1.text E ifaceId)]).Perm base :=
    (List.perm_append_singleton _ _).trans (List.perm_cons_erase hmem).symm
  exact ⟨_, hperm.nodup_iff.mpr hbase.nodup, fun rk => hperm.mem_iff.trans (hbase.mem_iff rk)⟩

/-- A restart changes no answer exactly when the keys of each target agree. -/
theorem reload_iff (hE : TextOk E) (hP : Patricia.Numbers E.P valid) (hid : ifaceId < 2 ^ 31)
    (hs : After valid ifaceId h s) (hgood : ∀ e ∈ h, Good E e) : Reloads ifaceId s ↔ Coherent h := by
  constructor
  · intro hr k b hlast hb
    have hst : Stored E ifaceId s.redis (k, b) := (stored_iff hs hgood (k, b)).mpr ⟨hlast, hb⟩
    obtain ⟨keys, hkeys⟩ := keysAnswer_last hE hid hs hst
    obtain ⟨cs, hcs, hall, -⟩ := keysAnswer_calls hE hid hs hgood hkeys
    obtain ⟨t, hload, hsame⟩ := hr _ hkeys
    obtain ⟨t', hload', hbits⟩ := load_answers hE hP hid hall
    rw [hcs, hload'] at hload
    have htt : t' = t := Option.some.inj hload
    obtain ⟨cs0, cs1, rfl, -, hcs1⟩ := List.map_eq_append_iff.mp hcs.symm
    obtain ⟨e, rfl, he⟩ := List.map_eq_singleton_iff.mp hcs1
    -- the last call that is read is the one of `k`
    have hek : e.1 = k := redisKey_inj hE hid he
    have heb : e.2 = b := by
      have h1 := ((stored_iff hs hgood e).mp (hall e (List.mem_append_right _ (List.mem_singleton_self e)))).1
      rw [hek, hlast] at h1
      exact (Option.some.inj h1).symm
    have hread : bitmapOf t k.target = b := by
      rw [← htt, hbits, targets_append]
      show (last (targets cs0 ++ [(e.1.target, e.2)]) k.target).getD 0 = b
      rw [hek, heb, last_append_self, Option.getD_some]
    have hlive := run_answers hE hs hgood k
    have hnow : getTags t (k.text E ifaceId) = b := by
      rcases getTags_text hE t ifaceId k with hget | ⟨-, hnever⟩
      · rw [hget, hread]
      · exact absurd (hgood (k, b) (last_mem hlast)) (hnever b)
    rw [← hsame, hnow] at hlive
    cases hl : last (targets h) k.target with
    | none =>
      rw [hl] at hlive
      exact absurd hlive hb
    | some c =>
      rw [hl] at hlive
      exact congrArg some hlive.symm
  · intro hc keys hkeys
    obtain ⟨cs, rfl, hall, hmem⟩ := keysAnswer_calls hE hid hs hgood hkeys
    obtain ⟨t, hload, hbits⟩ := load_answers hE hP hid hall
    refine ⟨t, hload, getTags_congr fun tg => ?_⟩
    rw [hbits, bitmapOf_after hs hgood, last_stored hs hgood hc hall hmem]

end Reload

/-! ## Results -/

/-- Over every sequence of calls that the tree can keep: each key, each MAC and each
address of a VLAN has the bitmap that was set last, or no tags; and a restart changes no
answer exactly when the keys of each MAC agree. -/
theorem tags_law (E : Env) (valid : E.P.Tree → Prop) (hE : TextOk E) (hP : Patricia.Numbers E.P valid) (ifaceId : Nat)
    (hid : ifaceId < 2 ^ 31) (r : Redis) (hr : ∀ rk, keysPattern ifaceId <+: rk → r rk = none)
    (h : List (Key × UInt64)) (hgood : ∀ e ∈ h, Good E e) :
    ∃ s : State E, run ifaceId h ⟨.empty, r⟩ = some s ∧
      (∀ k : Key, getTags s.tree (k.text E ifaceId) = (last (targets h) k.target).getD 0) ∧
      (∀ m : MacAddress, getTagsMac s.tree m.val = (last (targets h) (.mac m)).getD 0) ∧
      (∀ (a : IpAddress) (vlan : VlanId), getTagsIp s.tree a vlan.val = (last (targets h) (.ip a vlan)).getD 0) ∧
      (Reloads ifaceId s ↔ Coherent h) := by
  obtain ⟨s, hrun, hs⟩ := run_after hE hP hid (after_nil hE hid hr) h hgood
  rw [List.nil_append] at hs
  refine ⟨s, hrun, run_answers hE hs hgood, fun m => ?_, fun a vlan => ?_, reload_iff hE hP hid hs hgood⟩
  · exact bitmapOf_after hs hgood (.mac m)
  · exact bitmapOf_after hs hgood (.ip a vlan)

/-! ### A C library

Addresses in full: IPv6 as eight groups of four digits, which is what `inet_ntop` writes
when no group begins with a zero. -/

def lowerDigit (n : Nat) : Char := "0123456789abcdef".toList.getD n '0'

def hexText : List Bool → List Char
  | a :: b :: c :: d :: l => lowerDigit (bitsNat [a, b, c, d]) :: hexText l
  | _ => []

def groupText : Nat → List Bool → List Char
  | 0, l => hexText l
  | n + 1, l => hexText (l.take 16) ++ ':' :: groupText n (l.drop 16)

def nibble (c : Char) : List Bool :=
  match digit 16 c with
  | none => []
  | some n => (byteBits n).drop 4

def unhex (s : List Char) : List Bool := s.flatMap nibble

def fullNtop6 (l : List Bool) : List Char := groupText 7 l

def fullPton6 (s : List Char) : Option (Bits 128) :=
  if h : (unhex s).length = 128 then (if fullNtop6 (unhex s) = s then some ⟨unhex s, h⟩ else none) else none

def octetBits (s : List Char) : List Bool := (scanOctets s).flatMap byteBits

def quadPton4 (s : List Char) : Option (Bits 32) :=
  if h : (octetBits s).length = 32 then (if intoaV4 (octetBits s) = s then some ⟨octetBits s, h⟩ else none) else none

theorem lowerDigit_digit : ∀ k < 16, digit 16 (lowerDigit k) = some k := by decide

theorem nibble_lowerDigit (a b c d : Bool) : nibble (lowerDigit (bitsNat [a, b, c, d])) = [a, b, c, d] := by
  revert a b c d
  decide

theorem unhex_append (s t : List Char) : unhex (s ++ t) = unhex s ++ unhex t := List.flatMap_append

theorem unhex_hexText (n : Nat) (l : List Bool) (h : l.length = 4 * n) : unhex (hexText l) = l := by
  induction n generalizing l with
  | zero =>
    rw [List.length_eq_zero_iff.mp h]
    rfl
  | succ n ih =>
    match l, h with
    | a :: b :: c :: d :: l, h =>
      have hl : l.length = 4 * n := by
        simp only [List.length_cons] at h
        omega
      show nibble (lowerDigit (bitsNat [a, b, c, d])) ++ unhex (hexText l) = a :: b :: c :: d :: l
      rw [nibble_lowerDigit, ih l hl]
      rfl

theorem unhex_groupText (n : Nat) (l : List Bool) (h : l.length = 16 * (n + 1)) : unhex (groupText n l) = l := by
  induction n generalizing l with
  | zero => exact unhex_hexText 4 l (by omega)
  | succ n ih =>
    have htake : (l.take 16).length = 4 * 4 := by
      rw [List.length_take]
      omega
    have hdrop : (l.drop 16).length = 16 * (n + 1) := by
      rw [List.length_drop]
      omega
    have hcolon : unhex (':' :: groupText n (l.drop 16)) = unhex (groupText n (l.drop 16)) := rfl
    show unhex (hexText (l.take 16) ++ ':' :: groupText n (l.drop 16)) = l
    rw [unhex_append, hcolon, unhex_hexText 4 _ htake, ih _ hdrop, List.take_append_drop]

theorem bitsNat_lt_16 (a b c d : Bool) : bitsNat [a, b, c, d] < 16 := by
  revert a b c d
  decide

theorem mem_hexText {l : List Bool} {c : Char} (h : c ∈ hexText l) : (digit 16 c).isSome := by
  induction l using hexText.induct with
  | case1 a b c' d l ih =>
    rcases List.mem_cons.mp h with rfl | h
    · rw [lowerDigit_digit _ (bitsNat_lt_16 a b c' d)]
      rfl
    · exact ih h
  | case2 l hl =>
    rw [hexText.eq_2 l hl] at h
    cases h

theorem mem_groupText {n : Nat} {l : List Bool} {c : Char} (h : c ∈ groupText n l) : c = ':' ∨ (digit 16 c).isSome := by
  induction n generalizing l with
  | zero => exact .inr (mem_hexText h)
  | succ n ih =>
    rcases List.mem_append.mp h with h | h
    · exact .inr (mem_hexText h)
    · rcases List.mem_cons.mp h with rfl | h
      · exact .inl rfl
      · exact ih h

theorem colon_mem_groupText (n : Nat) (l : List Bool) : ':' ∈ groupText (n + 1) l :=
  List.mem_append_right _ (List.mem_cons_self ..)

theorem length_hexText (l : List Bool) : 4 * (hexText l).length ≤ l.length := by
  induction l using hexText.induct with
  | case1 a b c d l ih =>
    simp only [hexText, List.length_cons]
    omega
  | case2 l hl =>
    rw [hexText.eq_2 l hl]
    exact Nat.zero_le _

theorem length_groupText (n : Nat) (l : List Bool) : 4 * (groupText n l).length ≤ l.length + 4 * n := by
  induction n generalizing l with
  | zero => exact length_hexText l
  | succ n ih =>
    have h1 := length_hexText (l.take 16)
    have h2 := ih (l.drop 16)
    have h3 : (l.take 16).length + (l.drop 16).length = l.length := by
      rw [← List.length_append, List.take_append_drop]
    simp only [groupText, List.length_append, List.length_cons]
    omega

/-- The trees are lists, and nothing is read or written as JSON. -/
def plainEnv : Env where
  P := .ofList
  nullOk := true
  inetPton4 := quadPton4
  inetPton6 := fullPton6
  inetNtop6 := fullNtop6
  write _ := none
  parse _ := none

theorem octetBits_intoaV4 (a : Bits 32) : octetBits (intoaV4 a.val) = a.val := by
  have hbyte : ∀ i < 4, byteBits (bitsNat (octet a i)) = octet a i := fun i hi => byteBits_bitsNat (octet_length a hi)
  unfold octetBits
  rw [scanOctets_intoaV4]
  simp only [List.flatMap_cons, List.flatMap_nil, List.append_nil, hbyte 0 (by decide), hbyte 1 (by decide),
    hbyte 2 (by decide), hbyte 3 (by decide)]
  rw [← List.append_assoc, ← List.append_assoc]
  exact octets_append a

theorem quadPton4_intoaV4 (a : Bits 32) : quadPton4 (intoaV4 a.val) = some a := by
  have hbits := octetBits_intoaV4 a
  have hlen : (octetBits (intoaV4 a.val)).length = 32 := by rw [hbits]; exact a.property
  unfold quadPton4
  rw [dif_pos hlen, if_pos (by rw [hbits])]
  exact congrArg some (Subtype.ext hbits)

theorem quadPton4_colon {s : List Char} (hs : ':' ∈ s) : quadPton4 s = none := by
  unfold quadPton4
  by_cases hlen : (octetBits s).length = 32
  · have hno : ':' ∉ intoaV4 (octetBits s) := intoaV4_ne (a := ⟨octetBits s, hlen⟩) (by decide) (by decide)
    have hne : intoaV4 (octetBits s) ≠ s := fun heq => hno (heq.symm ▸ hs)
    rw [dif_pos hlen, if_neg hne]
  · rw [dif_neg hlen]

theorem fullPton6_fullNtop6 (a : Bits 128) : fullPton6 (fullNtop6 a.val) = some a := by
  have hbits : unhex (fullNtop6 a.val) = a.val := unhex_groupText 7 a.val a.property
  have hlen : (unhex (fullNtop6 a.val)).length = 128 := by rw [hbits]; exact a.property
  unfold fullPton6
  rw [dif_pos hlen, if_pos (by rw [hbits])]
  exact congrArg some (Subtype.ext hbits)

theorem fullNtop6_length (a : Bits 128) : (fullNtop6 a.val).length ≤ 45 := by
  have h := length_groupText 7 a.val
  have hlen := a.property
  unfold fullNtop6
  omega

theorem fullNtop6_colon (l : List Bool) : ':' ∈ fullNtop6 l := by
  unfold fullNtop6
  exact colon_mem_groupText 6 l

theorem mem_fullNtop6 {l : List Bool} {c : Char} (h : c ∈ fullNtop6 l) : c = ':' ∨ c = '.' ∨ (digit 16 c).isSome :=
  (mem_groupText h).imp_right .inr

theorem plainEnv_pton4 : plainEnv.inetPton4 = quadPton4 := rfl

theorem plainEnv_text : TextOk plainEnv where
  pton4 a := by
    rw [plainEnv_pton4]
    exact quadPton4_intoaV4 a
  pton4_colon _ := quadPton4_colon
  pton6 := fullPton6_fullNtop6
  ntop6_colon a := fullNtop6_colon a.val
  ntop6_length := fullNtop6_length
  ntop6_chars _ _ := mem_fullNtop6

def someMac : MacAddress := ⟨[0xAA, 0xBB, 0xCC, 0xDD, 0xEE, 0xFF], rfl⟩

/-- 2001:1db8:1111:2222:3333:4444:5555:6666 -/
def someIpv6 : IpAddress :=
  .v6 ⟨unhex "2001:1db8:1111:2222:3333:4444:5555:6666".toList, by decide +kernel⟩

/-- A MAC of an IPv4 host and an IPv6 address of VLAN 7, one after the other. -/
theorem tags_law_two :
    ∃ s : State plainEnv,
      run 3 [(.mac someMac .v4, 5), (.ip someIpv6 ⟨7, by decide⟩, 6)] ⟨.empty, fun _ => none⟩ = some s ∧
        getTags s.tree ((Key.mac someMac .v4).text plainEnv 3) = 5 := by
  have hgood : ∀ e ∈ [(Key.mac someMac .v4, (5 : UInt64)), (.ip someIpv6 ⟨7, by decide⟩, 6)], Good plainEnv e := by
    intro e he
    rcases List.mem_cons.mp he with rfl | he
    · exact ⟨(by decide : (5 : UInt64) ≠ 0xFFFFFFFFFFFFFFFF), trivial⟩
    · rw [List.mem_singleton.mp he]
      have hdot : '.' ∉ fullNtop6 someIpv6.bits := by decide
      have hscan : scanMac (fullNtop6 someIpv6.bits) = none := by decide
      exact ⟨(by decide : (6 : UInt64) ≠ 0xFFFFFFFFFFFFFFFF), hdot, hscan⟩
  obtain ⟨s, hrun, hkeys, -⟩ :=
    tags_law plainEnv Patricia.Distinct plainEnv_text Patricia.ofList_numbers 3 (by decide) (fun _ => none)
      (fun _ _ => rfl) _ hgood
  exact ⟨s, hrun, (hkeys (.mac someMac .v4)).trans (by decide)⟩

/-- A MAC that is given all 64 tags has none of them: the number kept for it is the count of
addresses, 0. -/
theorem all_tags_lost :
    ¬ ∀ (E : Env) (valid : E.P.Tree → Prop), TextOk E → Patricia.Numbers E.P valid →
      ∀ (h : List (Key × UInt64)) (s : State E), run 0 h ⟨.empty, fun _ => none⟩ = some s →
        ∀ k : Key, getTags s.tree (k.text E 0) = (last (targets h) k.target).getD 0 := by
  intro hall
  have hrun : ((run 0 [(.mac someMac .none, 0xFFFFFFFFFFFFFFFF)] ⟨.empty, fun _ => none⟩ : Option (State plainEnv)).map
      fun s => getTags s.tree ((Key.mac someMac .none).text plainEnv 0)) = some 0 := by decide
  obtain ⟨s, hs, hzero⟩ := Option.map_eq_some_iff.mp hrun
  have h := hall plainEnv Patricia.Distinct plainEnv_text Patricia.ofList_numbers _ s hs (.mac someMac .none)
  rw [hzero] at h
  revert h
  decide

end Ntopng.Addresses.Tags
