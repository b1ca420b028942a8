/-
  Ntopng.Tables.ServersProofs — the answers about servers follow the latest lists
  (src/ServerConfiguration.cpp, src/AddressTree.cpp).

  What the tables hold is one bitmap for each address of a VLAN (`bitsAt`); an entry sets one
  bit of one of them and leaves all others as they are (`addServer_valid`).

  Proved (`servers_law`): if the entries of all lists are clean, every reload returns, and from
  then on `isServer` and `isEmptyConfiguration` answer what the lists of that reload say,
  whatever was there before.
-/

import Ntopng.Tables.Servers
import Ntopng.Lib.Bits

namespace Ntopng.Tables.Servers

open Ntopng.Addresses Ntopng.Addresses.Tags Ntopng.Lib.Bits Ntopng.Lib.Lines Ntopng.Lib.Prefixes
open Ntopng.Flows.CustomScript (Pton6 none_bits ruleOf_line pton6_ne)

variable {E : Env} {valid : E.P.Tree → Prop} {entry net : Text} {ip : IpAddress} {type : HostService} {vlan : ℕ}

/-! ## Services -/

theorem value_inj {s t : HostService} (h : s.value = t.value) : s = t := by
  cases s <;> cases t <;> first | rfl | cases h

theorem value_lt (s : HostService) : s.value < 17 := by
  cases s <;> decide

theorem mem_all (s : HostService) : s ∈ HostService.all := by
  cases s <;> decide

theorem toBitVec_typeBit (s : HostService) : (typeBit s).toBitVec = 1#64 <<< s.value := by
  cases s <;> rfl

theorem toBitVec_bit32 (s : HostService) : (1 <<< UInt32.ofNat s.value : UInt32).toBitVec = 1#32 <<< s.value := by
  cases s <;> rfl

theorem and_typeBit_ne_zero (d : UInt64) (s : HostService) :
    d.toUInt32 &&& 1 <<< UInt32.ofNat s.value ≠ 0 ↔ d.toBitVec.getLsbD s.value = true := by
  have hlt : s.value < 32 := (value_lt s).trans (by decide)
  rw [ne_eq, ← UInt32.toBitVec_inj, UInt32.toBitVec_and, toBitVec_bit32, UInt64.toBitVec_toUInt32]
  refine (and_bit_ne_zero hlt).trans ?_
  rw [BitVec.getLsbD_setWidth, decide_eq_true hlt, Bool.true_and]

/-! ## The text of an address -/

theorem pton4_ne (h4 : Pton4 E) {a : Bits 32} (h : E.inetPton4 net = some a) {c : Char} (hdot : c ≠ '.')
    (hc : digit 10 c = none) : c ∉ net := by
  intro hmem
  rcases h4.chars net a h c hmem with heq | hdigit
  · exact hdot heq
  · rw [hc] at hdigit
    cases hdigit

theorem ruleOf_exact4 (h4 : Pton4 E) {a : Bits 32} (h : E.inetPton4 net = some a) :
    Counts.ruleOf E net = some (.inet, a.val, 32) := by
  have hne : ∀ c : Char, c ≠ '.' → digit 10 c = none → c ∉ net := fun c => pton4_ne h4 h
  have hcolon := hne ':' (by decide) (by decide)
  have hbyte : ∀ i < 4, byteBits (bitsNat (octet a i) % 256) = octet a i := by
    intro i hi
    rw [Nat.mod_eq_of_lt (bitsNat_lt_256 (octet_length a hi)), byteBits_bitsNat (octet_length a hi)]
  have hline := @ruleOf_line E net (hne '[' (by decide) (by decide)) (hne '/' (by decide) (by decide))
    (scanMac_sep hcolon) none none_bits
  rw [Flows.CustomScript.bitsText, List.append_nil, if_neg hcolon, h4.octets net a h, scanOctets_intoaV4,
    if_pos (by simp)] at hline
  simp only [List.getD_cons_zero, List.getD_cons_succ, hbyte 0 (by decide), hbyte 1 (by decide), hbyte 2 (by decide),
    hbyte 3 (by decide), octets_append] at hline
  exact hline

theorem ruleOf_exact6 (h6 : Pton6 E) {a : Bits 128} (h : E.inetPton6 net = some a) (hmac : scanMac net = none) :
    Counts.ruleOf E net = some (.inet6, a.val, 128) := by
  have hne : ∀ c : Char, c ≠ ':' → c ≠ '.' → digit 16 c = none → c ∉ net := fun c => pton6_ne h6 h
  have hline := @ruleOf_line E net (hne '[' (by decide) (by decide) (by decide))
    (hne '/' (by decide) (by decide) (by decide)) hmac none none_bits
  rw [Flows.CustomScript.bitsText, List.append_nil, if_pos (h6.colon net a h), h] at hline
  exact hline

theorem ruleOf_exact (h4 : Pton4 E) (h6 : Pton6 E) (h : Exact E net ip) (hmac : scanMac net = none) :
    Counts.ruleOf E net = some (ip.family, ip.bits, (ip.width : ℤ)) := by
  cases ip with
  | v4 a => exact ruleOf_exact4 h4 h
  | v6 a => exact ruleOf_exact6 h6 h hmac

/-- What the lookups and the trees make of a clean address. -/
structure Plain (E : Env) (net : Text) (ip : IpAddress) : Prop where
  mac : scanMac net = none
  dot : decide ('.' ∈ net) = isV4 ip
  rule : ∀ t, E.ptreeAddRule t net = E.addToPtree t ip.family ip.bits ip.width
  find : ∀ a : AddressTree E, a.find net = a.findAddress ip.family ip.bits

theorem plain_exact (h4 : Pton4 E) (h6 : Pton6 E) (h : Exact E net ip) (hmac : scanMac net = none)
    (hdot : E.inetPton6 net ≠ none → '.' ∉ net) : Plain E net ip := by
  have hrule : ∀ t, E.ptreeAddRule t net = E.addToPtree t ip.family ip.bits ip.width := by
    intro t
    rw [Counts.ptreeAddRule_eq, ruleOf_exact h4 h6 h hmac]
  cases ip with
  | v4 a =>
    have h' : E.inetPton4 net = some a := h
    have hmem := h4.dot net a h'
    refine ⟨hmac, decide_eq_true hmem, hrule, fun t => ?_⟩
    rw [AddressTree.find, if_pos hmem, h']
    rfl
  | v6 a =>
    have h' : E.inetPton6 net = some a := h
    have hno : '.' ∉ net := hdot (by rw [h']; exact Option.some_ne_none a)
    refine ⟨hmac, decide_eq_false hno, hrule, fun t => ?_⟩
    rw [AddressTree.find, if_neg hno, hmac, h']
    rfl

/-- A text is at most one address. -/
theorem exact_unique (h4 : Pton4 E) (h6 : Pton6 E) (hmac : scanMac net = none) {j : IpAddress} (h : Exact E net ip)
    (hj : Exact E net j) : j = ip := by
  have heq := (ruleOf_exact h4 h6 h hmac).symm.trans (ruleOf_exact h4 h6 hj hmac)
  simp only [Option.some.injEq, Prod.mk.injEq] at heq
  exact eq_of_bits heq.1.symm heq.2.1.symm

/-! ## VLANs -/

theorem vlanIndex_atoi16 {s : Text} (h : vlanOf s = some vlan) : vlanIndex (atoi16 s) = vlan := by
  unfold vlanOf at h
  split at h
  · rename_i hs
    obtain ⟨hne, hdigits, hlt⟩ := hs
    obtain rfl := Option.some.inj h
    rw [vlanIndex_eq, atoi16, atoi_digits hne (List.all_eq_true.mp hdigits) (lt_trans hlt (by decide)), UInt16.toNat_ofNat']
    simp only [maxNumVlan] at hlt ⊢
    omega
  · cases h

/-! ## One table -/

/-- The services kept for an address of a VLAN. -/
def bitsAt (t : VLANAddressTree E) (ip : IpAddress) (i : ℕ) : UInt64 :=
  ((t.tree i).bind fun a => numberOf a ip).getD 0

theorem numberOf_init (ip : IpAddress) : numberOf (.init true : AddressTree E) ip = none := by
  have hget : (.init true : AddressTree E).getTree (isV4 ip) = some (.new (widthOf (isV4 ip))) := by
    cases isV4 ip <;> rfl
  rw [numberOf, hget, Option.bind_some, PTree.new, Patricia.number_new]

theorem bitsAt_getOrCreate (t : VLANAddressTree E) (ip : IpAddress) (i : ℕ) :
    bitsAt t ip i = (numberOf (t.getOrCreate i) ip).getD 0 := by
  unfold bitsAt VLANAddressTree.getOrCreate
  cases t.tree i with
  | some a => rfl
  | none =>
    rw [Option.getD_none, numberOf_init]
    rfl

/-- An answer of the lookup, as the bitmap it stands for. -/
theorem types_eq (o : Option UInt64) (h : (o.getD 0).toNat < 2 ^ 63) :
    (if (o.map UInt64.toInt64).getD (-1) > 0 then ((o.map UInt64.toInt64).getD (-1)).toUInt64 else 0) = o.getD 0 := by
  cases o with
  | none => rfl
  | some d =>
    rw [Option.map_some, Option.getD_some, Option.getD_some] at *
    by_cases hd : d = 0
    · rw [hd]
      rfl
    · have hint : d.toInt64.toInt = d.toNat := by
        rw [← Int64.toInt_toBitVec, UInt64.toBitVec_toInt64]
        exact BitVec.toInt_eq_toNat_of_lt (by exact (by omega : 2 * d.toNat < 2 ^ 64))
      have hpos : d.toInt64 > 0 := by
        have hne : d.toNat ≠ 0 := fun h0 => hd (UInt64.toNat_inj.mp h0)
        rw [gt_iff_lt, Int64.lt_iff_toInt_lt, hint]
        exact (by omega : (0 : ℤ) < d.toNat)
      rw [if_pos hpos]
      rfl

/-- What was put in the place of one tree is there, and the others are as before. -/
theorem bitsAt_update (t : VLANAddressTree E) (i : ℕ) (a : AddressTree E) (n : UInt32) (ip : IpAddress) (k : ℕ) :
    bitsAt ⟨Function.update t.tree i (some a), n⟩ ip k = if k = i then (numberOf a ip).getD 0 else bitsAt t ip k := by
  unfold bitsAt
  by_cases hk : k = i
  · simp only [hk, Function.update_self, Option.bind_some, if_true]
  · simp only [if_neg hk, Function.update_of_ne hk]

theorem allFull_update {t : VLANAddressTree E} (h : AllFull valid t) (i : ℕ) {a : AddressTree E} (ha : Full valid a)
    (n : UInt32) : AllFull valid ⟨Function.update t.tree i (some a), n⟩ := by
  intro k b hb
  by_cases hk : k = i
  · simp only [hk, Function.update_self, Option.some.injEq] at hb
    exact hb ▸ ha
  · simp only [Function.update_of_ne hk] at hb
    exact h k b hb

theorem typeBit_small {d : UInt64} (h : d.toNat < 2 ^ 17) (s : HostService) : (d ||| typeBit s).toNat < 2 ^ 17 := by
  have hbit : (typeBit s).toNat < 2 ^ 17 := by cases s <;> decide
  rw [UInt64.toNat_or]
  exact Nat.or_lt_two_pow h hbit

/-! ## One entry -/

/-- The bit of the service is set for the address, and all else is as before. -/
theorem addServer_plain (hP : Patricia.Numbers E.P valid) (type : HostService) {st : ServersTree E} (hfull : AllFull valid st.tree)
    (hplain : Plain E net ip) {v : UInt16} (hsmall : (bitsAt st.tree ip (vlanIndex v)).toNat < 2 ^ 17) :
    ∃ t', addServer st type v net = some ⟨t', Function.update st.numServers type (st.numServers type + 1)⟩ ∧
      AllFull valid t' ∧ ∀ j k, bitsAt t' j k =
        if j = ip ∧ k = vlanIndex v then bitsAt st.tree ip (vlanIndex v) ||| typeBit type else bitsAt st.tree j k := by
  have hold := full_getOrCreate hP hfull (vlanIndex v)
  have htypes := types_eq (numberOf (st.tree.getOrCreate (vlanIndex v)) ip)
  rw [← bitsAt_getOrCreate] at htypes
  have hcur : curTypes st v net = ((numberOf (st.tree.getOrCreate (vlanIndex v)) ip).map UInt64.toInt64).getD (-1) := by
    rw [curTypes, VLANAddressTree.getOrCreate]
    cases ht : st.tree.tree (vlanIndex v) with
    | some t =>
      rw [Option.getD_some, ← findAddress_number (hfull _ t ht), ← hplain.find]
    | none =>
      rw [Option.getD_none, numberOf_init]
      rfl
  have hid : (bitsAt st.tree ip (vlanIndex v) ||| typeBit type).toInt64 ≠ -1 := by
    refine toInt64_ne fun hall => ?_
    have hlt := typeBit_small hsmall type
    rw [hall] at hlt
    exact absurd hlt (by decide)
  obtain ⟨a', hadd, hnew, hnumber, -⟩ := addAddress_number hP hold hplain.mac hplain.dot hplain.rule hid
  refine ⟨⟨Function.update st.tree.tree (vlanIndex v) (some a'), st.tree.numAddresses + 1⟩, ?_,
    allFull_update hfull _ hnew _, fun j k => ?_⟩
  · unfold addServer VLANAddressTree.addAddress
    simp only [hcur, htypes (by omega), hadd, Option.map_some, if_true]
  · rw [bitsAt_update, hnumber]
    by_cases hk : k = vlanIndex v
    · rw [if_pos hk, hk]
      by_cases hj : j = ip
      · rw [if_pos hj, if_pos ⟨hj, rfl⟩]
        rfl
      · rw [if_neg hj, if_neg fun h => hj h.1, bitsAt_getOrCreate]
    · rw [if_neg hk, if_neg fun h => hk h.2]

theorem addServer_refused (hP : Patricia.Numbers E.P valid) (type : HostService) {st : ServersTree E} (hfull : AllFull valid st.tree)
    (hmac : scanMac net = none) (hrule : Counts.ruleOf E net = none) (v : UInt16) :
    ∃ t', addServer st type v net = some ⟨t', st.numServers⟩ ∧ AllFull valid t' ∧
      ∀ j k, bitsAt t' j k = bitsAt st.tree j k := by
  have hold := full_getOrCreate hP hfull (vlanIndex v)
  have hadd : ∀ id, (st.tree.getOrCreate (vlanIndex v)).addAddress net id =
      some (false, st.tree.getOrCreate (vlanIndex v)) := by
    intro id
    have hsame : ∀ b (a : AddressTree E), a.setTree b (a.getTree b) = a := by
      intro b a
      cases b <;> rfl
    unfold AddressTree.addAddress
    simp only [hmac, Counts.ptreeAddRule_eq, hrule, hsame]
  refine ⟨⟨Function.update st.tree.tree (vlanIndex v) (some (st.tree.getOrCreate (vlanIndex v))),
    st.tree.numAddresses + 1⟩, ?_, allFull_update hfull _ hold _, fun j k => ?_⟩
  · unfold addServer VLANAddressTree.addAddress
    simp only [hadd, Option.map_some, Bool.false_eq_true, if_false]
  · rw [bitsAt_update]
    by_cases hk : k = vlanIndex v
    · rw [if_pos hk, hk, bitsAt_getOrCreate]
    · rw [if_neg hk]

/-! ## The entries of a list -/

theorem after_eq_none {c : Char} {s : List Char} (h : after c s = none) : c ∉ s := by
  intro hmem
  rw [after] at h
  cases hdrop : s.dropWhile (· ≠ c) with
  | nil =>
    have hall := List.dropWhile_eq_nil_iff.mp hdrop c hmem
    simp at hall
  | cons d r =>
    rw [hdrop] at h
    cases h

def vlanIdOf (entry : Text) : UInt16 := (after '@' entry).elim 0 atoi16

theorem vlanIndex_names (h : Names E entry ip vlan) : vlanIndex (vlanIdOf entry) = vlan := by
  have hvlan := h.2
  unfold vlanIdOf
  cases hafter : after '@' entry with
  | none =>
    rw [hafter] at hvlan
    exact Option.some.inj hvlan
  | some s =>
    rw [hafter] at hvlan
    exact vlanIndex_atoi16 hvlan

theorem loadItems_cons {ip : Text} (hne : ip ≠ []) (ipList : List Text) (st : ServersTree E) :
    loadItems type (ip :: ipList) st = (addServer st type (vlanIdOf ip) (before '@' ip)).bind (loadItems type ipList) := by
  rw [loadItems, if_neg hne, vlanIdOf]
  cases h : after '@' ip with
  | none =>
    have hbefore : before '@' ip = ip := takeWhile_ne (after_eq_none h)
    rw [hbefore]
    rfl
  | some vlan => rfl

theorem names_ne_nil (h4 : Pton4 E) (h6 : Pton6 E) (h : Names E entry ip vlan) : entry ≠ [] := by
  rintro rfl
  cases ip with
  | v4 a => exact List.not_mem_nil (h4.dot _ a h.1)
  | v6 a => exact List.not_mem_nil (h6.colon _ a h.1)

theorem not_valid_of_rule (h4 : Pton4 E) (h6 : Pton6 E) (hmac : scanMac (before '@' entry) = none)
    (hrule : Counts.ruleOf E (before '@' entry) = none) : ¬ Valid E entry := by
  rintro ⟨ip, vlan, h, -⟩
  rw [ruleOf_exact h4 h6 h hmac] at hrule
  cases hrule

/-- What the tree holds after the entries `L`. -/
structure After (valid : E.P.Tree → Prop) (L : HostService → List Text) (st : ServersTree E) : Prop where
  full : AllFull valid st.tree
  small : ∀ ip i, (bitsAt st.tree ip i).toNat < 2 ^ 17
  bits : ∀ ip i s, (bitsAt st.tree ip i).toBitVec.getLsbD s.value = true ↔ ∃ e ∈ L s, Names E e ip i
  count : ∀ s, (st.numServers s).toNat ≤ (L s).length
  empty : ∀ s, st.numServers s = 0 ↔ ∀ e ∈ L s, ¬ Valid E e

theorem after_empty (valid : E.P.Tree → Prop) : After valid (fun _ => []) ({} : ServersTree E) where
  full i a ha := by cases ha
  small ip i := by
    show (0 : UInt64).toNat < 2 ^ 17
    decide
  bits ip i s := by
    have hzero : (0#64).getLsbD s.value = false := BitVec.getLsbD_zero
    exact iff_of_false (ne_true_of_eq_false hzero) (by simp)
  count s := Nat.le_refl 0
  empty s := iff_of_true rfl (by simp)

/-- Entries added to the list of one service. -/
def extend (L : HostService → List Text) (type : HostService) (l : List Text) : HostService → List Text :=
  Function.update L type (L type ++ l)

section Extend

variable (L : HostService → List Text) (type : HostService) (e : Text) (s : HostService)

theorem mem_extend (l : List Text) : e ∈ extend L type l s ↔ e ∈ L s ∨ (s = type ∧ e ∈ l) := by
  unfold extend
  by_cases hs : s = type
  · rw [hs, Function.update_self, List.mem_append, eq_self, true_and]
  · rw [Function.update_of_ne hs, or_iff_left fun h => hs h.1]

theorem exists_extend (p : Text → Prop) :
    (∃ x ∈ extend L type [e] s, p x) ↔ (∃ x ∈ L s, p x) ∨ (s = type ∧ p e) := by
  simp only [mem_extend, List.mem_singleton, or_and_right, exists_or, and_assoc, exists_and_left, exists_eq_left]

theorem forall_extend (p : Text → Prop) :
    (∀ x ∈ extend L type [e] s, ¬ p x) ↔ (∀ x ∈ L s, ¬ p x) ∧ ¬ (s = type ∧ p e) := by
  have h := not_congr (exists_extend L type e s p)
  rw [not_or] at h
  simpa only [not_exists, not_and] using h

theorem extend_extend (l l' : List Text) : extend (extend L type l) type l' = extend L type (l ++ l') := by
  unfold extend
  rw [Function.update_idem, Function.update_self, List.append_assoc]

end Extend

variable {L : HostService → List Text} {st : ServersTree E}

theorem after_valid (h4 : Pton4 E) (h6 : Pton6 E) (hP : Patricia.Numbers E.P valid) (h : After valid L st)
    (hmac : scanMac (before '@' entry) = none) (hnames : Names E entry ip vlan)
    (hdot : E.inetPton6 (before '@' entry) ≠ none → '.' ∉ before '@' entry) (hlen : (L type).length + 1 < 2 ^ 32) :
    ∃ st', addServer st type (vlanIdOf entry) (before '@' entry) = some st' ∧ After valid (extend L type [entry]) st' := by
  have hplain := plain_exact h4 h6 hnames.1 hmac hdot
  obtain ⟨t', hadd, hfull, hbits⟩ := addServer_plain hP type h.full hplain (h.small ip (vlanIndex (vlanIdOf entry)))
  rw [vlanIndex_names hnames] at hbits
  have hnum := h.count type
  have hnext : (st.numServers type + 1).toNat = (st.numServers type).toNat + 1 := by
    rw [UInt32.toNat_add]
    exact Nat.mod_eq_of_lt (by exact (by omega : (st.numServers type).toNat + 1 < 2 ^ 32))
  have hthis : ∀ j k, Names E entry j k ↔ j = ip ∧ k = vlan := by
    intro j k
    constructor
    · intro hj
      exact ⟨exact_unique h4 h6 hmac hnames.1 hj.1, Option.some.inj (hj.2.symm.trans hnames.2)⟩
    · rintro ⟨rfl, rfl⟩
      exact hnames
  refine ⟨_, hadd, hfull, fun j k => ?_, fun j k s => ?_, fun s => ?_, fun s => ?_⟩
  · rw [hbits]
    split
    · exact typeBit_small (h.small ip vlan) type
    · exact h.small j k
  · rw [exists_extend L type entry s fun x => Names E x j k, ← h.bits, hthis, hbits]
    by_cases hjk : j = ip ∧ k = vlan
    · have hs : s.value = type.value ↔ s = type ∧ j = ip ∧ k = vlan :=
        ⟨fun hv => ⟨value_inj hv, hjk⟩, fun hv => congrArg HostService.value hv.1⟩
      rw [if_pos hjk, UInt64.toBitVec_or, toBitVec_typeBit, getLsbD_or_bit ((value_lt s).trans (by decide)), hs, hjk.1, hjk.2]
    · rw [if_neg hjk, or_iff_left fun hs => hjk hs.2]
  · dsimp only
    by_cases hs : s = type
    · rw [hs, extend, Function.update_self, Function.update_self, hnext, List.length_append, List.length_singleton]
      omega
    · rw [extend, Function.update_of_ne hs, Function.update_of_ne hs]
      exact h.count s
  · have hentry : Valid E entry := ⟨ip, vlan, hnames⟩
    dsimp only
    rw [forall_extend, ← h.empty, and_iff_left hentry]
    by_cases hs : s = type
    · rw [hs, Function.update_self]
      refine iff_of_false (fun h0 => ?_) fun h0 => h0.2 rfl
      rw [h0] at hnext
      cases hnext
    · rw [Function.update_of_ne hs, and_iff_left hs]

/-- Nothing that is no valid entry changes what the lists say. -/
theorem after_refused (h4 : Pton4 E) (h6 : Pton6 E) (hP : Patricia.Numbers E.P valid) (h : After valid L st)
    (hmac : scanMac (before '@' entry) = none) (hrule : Counts.ruleOf E (before '@' entry) = none) :
    ∃ st', addServer st type (vlanIdOf entry) (before '@' entry) = some st' ∧ After valid (extend L type [entry]) st' := by
  obtain ⟨t', hadd, hfull, hbits⟩ := addServer_refused hP type h.full hmac hrule (vlanIdOf entry)
  have hno := not_valid_of_rule h4 h6 hmac hrule
  refine ⟨_, hadd, hfull, fun j k => ?_, fun j k s => ?_, fun s => ?_, fun s => ?_⟩
  · rw [hbits]
    exact h.small j k
  · rw [exists_extend L type entry s fun x => Names E x j k, hbits, h.bits, or_iff_left fun hs => hno ⟨j, k, hs.2⟩]
  · refine (h.count s).trans ?_
    unfold extend
    by_cases hs : s = type
    · rw [hs, Function.update_self, List.length_append]
      exact Nat.le_add_right _ _
    · rw [Function.update_of_ne hs]
  · rw [forall_extend, ← h.empty]
    exact (and_iff_left fun hs => hno hs.2).symm

/-- One entry. -/
theorem after_addServer (h4 : Pton4 E) (h6 : Pton6 E) (hP : Patricia.Numbers E.P valid) (h : After valid L st)
    (hclean : Clean E entry) (hlen : (L type).length + 1 < 2 ^ 32) :
    ∃ st', addServer st type (vlanIdOf entry) (before '@' entry) = some st' ∧ After valid (extend L type [entry]) st' := by
  obtain ⟨hmac, hrule | ⟨⟨ip, vlan, hnames⟩, hdot⟩⟩ := hclean
  · exact after_refused h4 h6 hP h hmac hrule
  · exact after_valid h4 h6 hP h hmac hnames hdot hlen

theorem after_loadItems (h4 : Pton4 E) (h6 : Pton6 E) (hP : Patricia.Numbers E.P valid) {items : List Text}
    (h : After valid L st) (hclean : ∀ e ∈ items, e ≠ [] → Clean E e) (hlen : (L type).length + items.length < 2 ^ 32) :
    ∃ st', loadItems type items st = some st' ∧ After valid (extend L type (items.filter (· ≠ []))) st' := by
  induction items generalizing L st with
  | nil =>
    refine ⟨st, rfl, ?_⟩
    rw [List.filter_nil, extend, List.append_nil, Function.update_eq_self]
    exact h
  | cons ip items ih =>
    rw [List.forall_mem_cons] at hclean
    rw [List.length_cons] at hlen
    by_cases hne : ip = []
    · obtain ⟨st', hload, h'⟩ := ih h hclean.2 (by omega)
      rw [loadItems, if_pos hne, List.filter_cons_of_neg (by simp [hne])]
      exact ⟨st', hload, h'⟩
    · have hlt : (L type).length + 1 < 2 ^ 32 := by omega
      obtain ⟨st1, hadd, h1⟩ := after_addServer h4 h6 hP h (hclean.1 hne) hlt
      have hlen1 : (extend L type [ip] type).length + items.length < 2 ^ 32 := by
        rw [extend, Function.update_self, List.length_append, List.length_singleton]
        omega
      obtain ⟨st', hload, h'⟩ := ih h1 hclean.2 hlen1
      rw [extend_extend, List.singleton_append] at h'
      rw [loadItems_cons hne, hadd, List.filter_cons_of_pos (by simp [hne])]
      exact ⟨st', hload, h'⟩

/-! ## One reload -/

/-- The entries that are added for a service. -/
def itemsOf (redis : Redis) (type : HostService) : List Text :=
  (lines ',' (removeSpaces (rspOf redis type)) []).filter (· ≠ [])

theorem mem_itemsOf {redis : Redis} : entry ∈ itemsOf redis type ↔ entry ≠ [] ∧ entry ∈ entries redis type := by
  rw [itemsOf, List.mem_filter, decide_eq_true_iff, and_comm, entries]
  exact and_congr_right mem_lines

theorem length_rspOf (redis : Redis) (type : HostService) : (rspOf redis type).length ≤ 2 ^ 29 := by
  unfold rspOf
  cases redis (serviceKey type) with
  | none => exact Nat.zero_le _
  | some s => exact s.property

theorem after_loadConfiguration (h4 : Pton4 E) (h6 : Pton6 E) (hP : Patricia.Numbers E.P valid) {redis : Redis}
    (h : After valid L st) (hclean : CleanLists E redis) (hnil : L type = []) :
    ∃ st', loadConfiguration redis st type = some st' ∧ After valid (Function.update L type (itemsOf redis type)) st' := by
  have hlines := length_lines_le ',' (removeSpaces (rspOf redis type)) []
  have hspaces : (removeSpaces (rspOf redis type)).length ≤ (rspOf redis type).length := List.length_filter_le _ _
  have hrsp := length_rspOf redis type
  have hitems : ∀ e ∈ lines ',' (removeSpaces (rspOf redis type)) [], e ≠ [] → Clean E e := fun e he hne =>
    hclean type e ((mem_lines hne).mp he)
  have hlen : (L type).length + (lines ',' (removeSpaces (rspOf redis type)) []).length < 2 ^ 32 := by
    rw [hnil, List.length_nil]
    omega
  obtain ⟨st', hload, h'⟩ := after_loadItems h4 h6 hP h hitems hlen
  rw [extend, hnil, List.nil_append] at h'
  refine ⟨st', ?_, h'⟩
  rw [loadConfiguration]
  by_cases hpos : (rspOf redis type).length > 0
  · exact (if_pos hpos).trans hload
  · have hempty : rspOf redis type = [] := List.length_eq_zero_iff.mp (Nat.eq_zero_of_not_pos hpos)
    rw [hempty] at hload
    rw [← hload]
    exact if_neg hpos

/-- The services one after the other; the order plays no part in what is there in the end. -/
theorem after_foldlM (h4 : Pton4 E) (h6 : Pton6 E) (hP : Patricia.Numbers E.P valid) {redis : Redis}
    (hclean : CleanLists E redis) {ss : List HostService} (hnodup : ss.Nodup) (h : After valid L st)
    (hnil : ∀ s ∈ ss, L s = []) :
    ∃ st', ss.foldlM (loadConfiguration redis) st = some st' ∧
      After valid (fun s => if s ∈ ss then itemsOf redis s else L s) st' := by
  induction ss generalizing L st with
  | nil => exact ⟨st, rfl, by simpa using h⟩
  | cons s ss ih =>
    rw [List.nodup_cons] at hnodup
    rw [List.forall_mem_cons] at hnil
    obtain ⟨st1, hload, h1⟩ := after_loadConfiguration h4 h6 hP h hclean hnil.1
    have hnil1 : ∀ t ∈ ss, Function.update L s (itemsOf redis s) t = [] := by
      intro t ht
      have hts : t ≠ s := by
        rintro rfl
        exact hnodup.1 ht
      rw [Function.update_of_ne hts]
      exact hnil.2 t ht
    obtain ⟨st', hrest, h'⟩ := ih hnodup.2 h1 hnil1
    refine ⟨st', ?_, ?_⟩
    · rw [List.foldlM_cons, hload]
      exact hrest
    · convert h' using 1
      funext t
      by_cases hts : t = s
      · simp [hts]
      · simp [hts]

theorem getServerTypes_eq {c : ServerConfiguration E} (h : AllFull valid c.servers.tree) (ip : IpAddress) (v : UInt16) :
    getServerTypes c ip v = some (bitsAt c.servers.tree ip (vlanIndex v)).toUInt32 := by
  unfold getServerTypes bitsAt
  cases ht : c.servers.tree.tree (vlanIndex v) with
  | none => rfl
  | some t =>
    obtain ⟨q, hq, hmax, -⟩ := h _ t ht (isV4 ip)
    have hfill : fillPrefix ip.family ip.bits ip.width q.maxbits = some (prefixOf ip) := by
      rw [hmax, widthOf_isV4]
      exact fillPrefix_prefixOf ip
    have hmatch : E.ptreeMatch (some q) ip.family ip.bits ip.width = some (E.P.searchBest q.tree (prefixOf ip)) := by
      unfold Env.ptreeMatch
      simp only [hfill]
    dsimp only
    rw [hq, hmatch, Option.map_some, Option.bind_some, numberOf, hq, Option.bind_some, Patricia.number]
    cases E.P.searchBest q.tree (prefixOf ip) with
    | none => rfl
    | some n => rfl

/-- A reload leaves what its own lists say, whatever was there. -/
theorem reload_answers (h4 : Pton4 E) (h6 : Pton6 E) (hP : Patricia.Numbers E.P valid) {redis : Redis}
    (hclean : CleanLists E redis) (c : ServerConfiguration E) :
    ∃ c', reloadServersConfiguration redis c = some c' ∧ Answers redis c' := by
  have hnodup : HostService.all.Nodup := by decide
  obtain ⟨st, hload, hafter⟩ := after_foldlM h4 h6 hP hclean hnodup (after_empty valid) fun _ _ => rfl
  have hmem : ∀ s, (if s ∈ HostService.all then itemsOf redis s else []) = itemsOf redis s := fun s => if_pos (mem_all s)
  simp only [hmem] at hafter
  refine ⟨{ servers := st, serversShadow := some c.servers }, ?_, fun type ip v => ?_, fun type => ?_⟩
  · rw [reloadServersConfiguration, hload, Option.map_some]
  · have hlists : Lists E redis type ip (vlanIndex v) ↔ ∃ e ∈ itemsOf redis type, Names E e ip (vlanIndex v) := by
      unfold Lists
      refine exists_congr fun e => ?_
      rw [mem_itemsOf, and_assoc]
      exact ⟨fun h => ⟨names_ne_nil h4 h6 h.2, h⟩, And.right⟩
    have htypes := @getServerTypes_eq E valid { servers := st, serversShadow := some c.servers } hafter.full ip v
    refine ⟨_, by rw [isServer, htypes, Option.map_some], ?_⟩
    rw [decide_eq_true_iff, hlists, ← hafter.bits]
    exact and_typeBit_ne_zero _ type
  · rw [isEmptyConfiguration, beq_iff_eq, hafter.empty]
    refine forall_congr' fun e => ?_
    rw [mem_itemsOf, and_imp]
    refine ⟨fun h he hvalid => ?_, fun h _ => h⟩
    obtain ⟨ip, vlan, hnames⟩ := hvalid
    exact h (names_ne_nil h4 h6 hnames) he ⟨ip, vlan, hnames⟩

/-! ## All reloads -/

theorem run_answers (h4 : Pton4 E) (h6 : Pton6 E) (hP : Patricia.Numbers E.P valid) {rs : List Redis} {redis : Redis}
    (hclean : ∀ r ∈ rs ++ [redis], CleanLists E r) (c : ServerConfiguration E) :
    ∃ c', run (rs ++ [redis]) c = some c' ∧ Answers redis c' := by
  induction rs generalizing c with
  | nil =>
    obtain ⟨c', hreload, hanswers⟩ := reload_answers h4 h6 hP (hclean redis (List.mem_singleton_self redis)) c
    refine ⟨c', ?_, hanswers⟩
    rw [List.nil_append, run, hreload]
    rfl
  | cons r rs ih =>
    rw [List.cons_append, List.forall_mem_cons] at hclean
    obtain ⟨c1, hreload, -⟩ := reload_answers h4 h6 hP hclean.1 c
    obtain ⟨c', hrun, hanswers⟩ := ih hclean.2 c1
    refine ⟨c', ?_, hanswers⟩
    rw [List.cons_append, run, hreload]
    exact hrun

/-! ## Two examples -/

theorem pton4_plain : Pton4 plainEnv := by
  have hquad : ∀ s (a : Bits 32), plainEnv.inetPton4 s = some a → s = intoaV4 a.val := by
    intro s a h
    rw [plainEnv_pton4, quadPton4] at h
    split at h
    · split at h
      · rename_i heq
        rw [← Option.some.inj h]
        exact heq.symm
      · cases h
    · cases h
  constructor
  · intro s a h
    rw [hquad s a h, intoaV4_eq]
    exact List.mem_append_right _ (List.mem_cons_self ..)
  · intro s a h c hc
    rw [hquad s a h] at hc
    exact mem_intoaV4 hc
  · intro s a h
    rw [hquad s a h]

theorem fullPton6_eq {s : Text} {a : Bits 128} (h : fullPton6 s = some a) : s = fullNtop6 a.val := by
  rw [fullPton6] at h
  split at h
  · split at h
    · rename_i heq
      rw [← Option.some.inj h]
      exact heq.symm
    · cases h
  · cases h

theorem pton6_plain : Pton6 plainEnv where
  colon _ a h := fullPton6_eq h ▸ fullNtop6_colon a.val
  chars _ a h _ hc := mem_fullNtop6 (l := a.val) (fullPton6_eq h ▸ hc)

/-- Only the list of one service is there. -/
def oneList (type : HostService) (list : RedisText) : Redis := fun key => if key = serviceKey type then some list else none

/-- 10.0.0.1 -/
def someIpv4 : Bits 32 := ⟨byteBits 10 ++ byteBits 0 ++ byteBits 0 ++ byteBits 1, rfl⟩

theorem serviceKey_dns (h : serviceKey type = serviceKey .dns) : type = .dns := by
  revert h
  cases type <;> decide

theorem entries_oneList (list : RedisText) : entries (oneList .dns list) type =
    if type = .dns then (removeSpaces list.val).splitOn ',' else [[]] := by
  unfold entries rspOf oneList
  by_cases h : type = .dns
  · rw [if_pos h, if_pos (congrArg serviceKey h)]
    rfl
  · rw [if_neg h, if_neg fun hkey => h (serviceKey_dns hkey)]
    exact List.splitOn_nil ','

/-- The lists of all services. -/
def listsOf (lists : HostService → Option RedisText) : Redis := fun key =>
  (HostService.all.find? fun type => serviceKey type = key).bind lists

theorem entries_listsOf (lists : HostService → Option RedisText) :
    entries (listsOf lists) type = (removeSpaces (((lists type).map Subtype.val).getD [])).splitOn ',' := by
  have hfind : HostService.all.find? (fun t => serviceKey t = serviceKey type) = some type := by
    cases type <;> decide
  rw [entries, rspOf, listsOf, hfind, Option.bind_some]

/-- 10.0.0.2 -/
def otherIpv4 : Bits 32 := ⟨byteBits 10 ++ byteBits 0 ++ byteBits 0 ++ byteBits 2, rfl⟩

/-- 2001:1db8:1111:2222:3333:4444:5555:7777 -/
def fullIpv6 : Bits 128 := ⟨unhex "2001:1db8:1111:2222:3333:4444:5555:7777".toList, by decide +kernel⟩

/-- A server of VLAN 5, one of two services, and an entry that is nothing. -/
def earlierLists : HostService → Option RedisText
  | .dns => some ⟨"10.0.0.1@5, zz".toList, by decide⟩
  | .ntp => some ⟨"10.0.0.1@5".toList, by decide⟩
  | _ => none

/-- That server of another service, and others. -/
def laterLists : HostService → Option RedisText
  | .dns => some ⟨"10.0.0.2, 2001:1db8:1111:2222:3333:4444:5555:7777@7".toList, by decide⟩
  | .smtp => some ⟨"10.0.0.2,zz,10.0.0.1@5, 10.0.0.2".toList, by decide⟩
  | _ => none

def someEntries : List Text :=
  ["10.0.0.1@5".toList, "10.0.0.2".toList, "2001:1db8:1111:2222:3333:4444:5555:7777@7".toList, "zz".toList, []]

theorem clean_ipv4 {e : Text} (a : Bits 32) (vlan : ℕ) (hnet : before '@' e = intoaV4 a.val)
    (hvlan : (after '@' e).elim (some 0) vlanOf = some vlan) (hcolon : ':' ∉ before '@' e)
    (h6 : plainEnv.inetPton6 (before '@' e) = none) : Clean plainEnv e := by
  have hexact : plainEnv.inetPton4 (before '@' e) = some a := by
    rw [plainEnv_pton4, hnet, quadPton4_intoaV4]
  exact ⟨scanMac_sep hcolon, .inr ⟨⟨.v4 a, vlan, hexact, hvlan⟩, fun hno => absurd h6 hno⟩⟩

theorem clean_ipv6 {e : Text} (a : Bits 128) (vlan : ℕ) (hnet : before '@' e = fullNtop6 a.val)
    (hvlan : (after '@' e).elim (some 0) vlanOf = some vlan) (hmac : scanMac (before '@' e) = none)
    (hdot : '.' ∉ before '@' e) : Clean plainEnv e := by
  have hexact : plainEnv.inetPton6 (before '@' e) = some a := by
    rw [hnet]
    exact fullPton6_fullNtop6 a
  exact ⟨hmac, .inr ⟨⟨.v6 a, vlan, hexact, hvlan⟩, fun _ => hdot⟩⟩

theorem clean_someEntries : ∀ e ∈ someEntries, Clean plainEnv e := by
  have hnothing : ∀ e : Text, scanMac (before '@' e) = none → Counts.ruleOf plainEnv (before '@' e) = none →
      Clean plainEnv e := fun e hmac hrule => ⟨hmac, .inl hrule⟩
  intro e he
  fin_cases he
  · exact clean_ipv4 someIpv4 5 (by decide) (by decide) (by decide) (by decide)
  · exact clean_ipv4 otherIpv4 0 (by decide) (by decide) (by decide) (by decide)
  · exact clean_ipv6 fullIpv6 7 (by decide +kernel) (by decide) (by decide) (by decide)
  · exact hnothing _ (by decide) (by decide)
  · exact hnothing _ (by decide) (by decide)

theorem clean_lists : ∀ r ∈ [listsOf earlierLists] ++ [listsOf laterLists], CleanLists plainEnv r := by
  intro r hr type e he
  refine clean_someEntries e ?_
  rcases List.mem_pair.mp hr with rfl | rfl
  · rw [entries_listsOf] at he
    revert e
    cases type <;> decide
  · rw [entries_listsOf] at he
    revert e
    cases type <;> decide

/-- 1:2:3:4:5:6:7:8, in the shortest form. -/
def shortIpv6 : Bits 128 := ⟨[1, 2, 3, 4, 5, 6, 7, 8].flatMap fun b => byteBits 0 ++ byteBits b, rfl⟩

def shortText : RedisText := ⟨"1:2:3:4:5:6:7:8".toList, by decide⟩

/-- `inet_pton` takes the short form of one address as well. -/
def shortPton6 (s : Text) : Option (Bits 128) := if s = shortText.val then some shortIpv6 else fullPton6 s

def shortEnv : Env := { plainEnv with inetPton6 := shortPton6 }

theorem shortPton6_ne {s : Text} (h : s ≠ shortText.val) : shortPton6 s = fullPton6 s := if_neg h

theorem pton6_short : Pton6 shortEnv where
  colon s a h := by
    by_cases hs : s = shortText.val
    · rw [hs]
      decide
    · exact pton6_plain.colon s a ((shortPton6_ne hs).symm.trans h)
  chars s a h := by
    by_cases hs : s = shortText.val
    · have hall : shortText.val.all fun c => decide (c = ':') || (digit 16 c).isSome := by decide
      rw [hs]
      intro c hc
      have hchar := List.all_eq_true.mp hall c hc
      rw [Bool.or_eq_true, decide_eq_true_iff] at hchar
      exact hchar.imp_right .inr
    · exact pton6_plain.chars s a ((shortPton6_ne hs).symm.trans h)

theorem pton4_short : Pton4 shortEnv where
  dot := pton4_plain.dot
  chars := pton4_plain.chars
  octets := pton4_plain.octets

/-! ## The law -/

/-- For every sequence of configurations whose lists are clean: every reload returns, and after it the answers are
    what its lists say. -/
theorem servers_law (E : Env) (valid : E.P.Tree → Prop) (h4 : Pton4 E) (h6 : Pton6 E) (hP : Patricia.Numbers E.P valid)
    (rs : List Redis) (redis : Redis) (hclean : ∀ r ∈ rs ++ [redis], CleanLists E r) :
    ∃ c, run (rs ++ [redis]) ({} : ServerConfiguration E) = some c ∧ Answers redis c :=
  run_answers h4 h6 hP hclean {}

/-- Services that share servers, before and after a change of all lists. -/
theorem servers_law_lists :
    ∃ c, run ([listsOf earlierLists] ++ [listsOf laterLists]) ({} : ServerConfiguration plainEnv) = some c ∧
      Answers (listsOf laterLists) c :=
  servers_law plainEnv Patricia.Distinct pton4_plain pton6_plain Patricia.ofList_numbers [listsOf earlierLists]
    (listsOf laterLists) clean_lists

/-- The only DNS server, 1:2:3:4:5:6:7:8, is none: its first six groups are taken for a MAC. -/
theorem short_ipv6_lost :
    ¬ ∀ (E : Env) (valid : E.P.Tree → Prop), Pton4 E → Pton6 E → Patricia.Numbers E.P valid →
      ∀ (rs : List Redis) (redis : Redis),
        ∃ c, run (rs ++ [redis]) ({} : ServerConfiguration E) = some c ∧ Answers redis c := by
  intro h
  obtain ⟨c, hrun, hanswers⟩ :=
    h shortEnv Patricia.Distinct pton4_short pton6_short Patricia.ofList_numbers [] (oneList .dns shortText)
  have hno : (run [oneList .dns shortText] ({} : ServerConfiguration shortEnv)).map
      (fun c => isServer c .dns (.v6 shortIpv6) 0) = some (some false) := by decide +kernel
  rw [List.nil_append] at hrun
  rw [hrun, Option.map_some] at hno
  obtain ⟨b, hb, hlists⟩ := hanswers.isServer .dns (.v6 shortIpv6) 0
  rw [Option.some.inj hno] at hb
  obtain rfl := Option.some.inj hb
  refine Bool.false_ne_true (hlists.mpr ⟨shortText.val, ?_, ?_, by decide⟩)
  · rw [entries_oneList, if_pos rfl]
    decide
  · have htext : before '@' shortText.val = shortText.val := by decide
    show shortPton6 (before '@' shortText.val) = some shortIpv6
    rw [htext, shortPton6, if_pos rfl]

end Ntopng.Tables.Servers
