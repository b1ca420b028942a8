/-
  Ntopng.Addresses.Restore — what is left of an address tree that was saved and read back
  (src/AddressTree.cpp, src/BroadcastDomains.cpp).

  `deserialize` drops the prefix trees with `cleanup` and does not make new ones, so no
  network of the document has a tree to go to; and the list of MAC addresses that
  `serialize` writes holds their numbers in place of the addresses.

  Proved:
  - `addAll_null`, `addAll_items`: without trees nothing but MAC addresses is added, and of
    the list of MAC addresses nothing at all.
  - `build_ok`, `finds_of_node`, `finds_of_mac`: whatever was stored is found.
  - `restored_iff`: over every tree that can be built.
-/

import Ntopng.Addresses.Tree

namespace Ntopng.Addresses

open Ntopng.Lib.Prefixes

variable {E : Env}

/-! ## Trees keep to their width -/

/-- A tree is as wide as it was made, and no node is longer. -/
def Within (p : Option (PTree E.P)) (w : Nat) : Prop := ∀ q, p = some q → q.maxbits = w ∧ ∀ n ∈ q.nodes, n.key.bitlen ≤ w

theorem within_none (w : Nat) : Within (E := E) none w := fun q hq => by cases hq

theorem within_new (w : Nat) : Within (E := E) (some (.new w)) w := by
  intro q hq
  cases hq
  refine ⟨rfl, fun n hn => ?_⟩
  rw [PTree.nodes, PTree.new, E.P.nodes_new] at hn
  cases hn

theorem fillPrefix_bitlen {f : Family} {add : List Bool} {bits : Int} {maxbits : Nat} {p : Prefix Family}
    (h : fillPrefix f add bits maxbits = some p) : p.add = add ∧ (p.bitlen : Int) = bits ∧ p.bitlen ≤ maxbits := by
  unfold fillPrefix at h
  split at h
  · rename_i hb
    cases h
    exact ⟨rfl, Int.toNat_of_nonneg hb.1, hb.2.1⟩
  · cases h

/-- Without a tree there is no node, or a fault. -/
theorem addToPtree_none {f : Family} {add : List Bool} {bits : Int} {r : Option (Prefix Family) × Option (PTree E.P)}
    (h : E.addToPtree none f add bits = some r) : r = (none, none) := by
  unfold Env.addToPtree at h
  by_cases hn : E.nullOk = true
  · simp only [hn, if_true] at h
    exact (Option.some.inj h).symm
  · simp only [hn] at h
    cases h

theorem addToPtree_within {t t' : Option (PTree E.P)} {f : Family} {add : List Bool} {bits : Int}
    {r : Option (Prefix Family)} {w : Nat} (hw : Within t w) (h : E.addToPtree t f add bits = some (r, t')) :
    Within t' w := by
  cases t with
  | none =>
    cases addToPtree_none h
    exact within_none w
  | some t =>
    obtain ⟨hmax, hnodes⟩ := hw t rfl
    unfold Env.addToPtree at h
    cases hp : fillPrefix f add bits t.maxbits with
    | none => simp only [hp] at h; cases h
    | some p =>
      simp only [hp] at h
      cases hlookup : E.P.lookup t.tree p with
      | none =>
        simp only [hlookup] at h
        cases h
        exact hw
      | some tree =>
        simp only [hlookup] at h
        cases h
        intro q hq
        cases hq
        refine ⟨hmax, fun n hn => ?_⟩
        rcases E.P.nodes_lookup _ _ _ hlookup n hn with hold | hkey
        · exact hnodes n hold
        · rw [hkey, ← hmax]
          exact (fillPrefix_bitlen hp).2.2

/-- A tree whose nodes have keys that were there before. -/
theorem within_keys {t : Option (PTree E.P)} {g : E.P.Tree → E.P.Tree} {w : Nat} (hw : Within t w)
    (hg : ∀ tree, ∀ n ∈ E.P.nodes (g tree), ∃ m ∈ E.P.nodes tree, m.key = n.key) :
    Within (t.map fun q => { q with tree := g q.tree }) w := by
  intro q hq
  obtain ⟨q', rfl, rfl⟩ := Option.map_eq_some_iff.mp hq
  obtain ⟨hmax, hnodes⟩ := hw q' rfl
  refine ⟨hmax, fun n hn => ?_⟩
  obtain ⟨m, hm, hkey⟩ := hg _ n hn
  rw [← hkey]
  exact hnodes m hm

/-! ## What every tree has that was built -/

structure TreeOk (t : AddressTree E) : Prop where
  v4 : Within t.ptreeV4 32
  v6 : Within t.ptreeV6 128
  macs : ∀ e ∈ t.macs, e.2 ≠ -1 ∧ ∃ mac, mac2int mac = e.1

variable {t t' : AddressTree E}

theorem treeOk_setTree {isV4 : Bool} {p : Option (PTree E.P)} (h : TreeOk t) (hp : Within p (if isV4 then 32 else 128)) :
    TreeOk (t.setTree isV4 p) := by
  cases isV4
  · exact ⟨h.v4, hp, h.macs⟩
  · exact ⟨hp, h.v6, h.macs⟩

theorem within_getTree (h : TreeOk t) (isV4 : Bool) : Within (t.getTree isV4) (if isV4 then 32 else 128) := by
  cases isV4
  · exact h.v6
  · exact h.v4

theorem treeOk_setNodeU64 (h : TreeOk t) (isV4 : Bool) (p : Prefix Family) (v : UInt64) :
    TreeOk (t.setNodeU64 isV4 p v) :=
  treeOk_setTree h (within_keys (within_getTree h isV4) fun tree n hn => E.P.nodes_setU64 tree p v n hn)

theorem treeOk_removePrefix (h : TreeOk t) (isV4 : Bool) (p : Prefix Family) : TreeOk (t.removePrefix isV4 p) := by
  have hwithin := within_keys (within_getTree h isV4) fun tree n hn => ⟨n, E.P.nodes_remove tree p n hn, rfl⟩
  unfold AddressTree.removePrefix
  cases hq : t.getTree isV4 with
  | none => exact h
  | some q =>
    rw [hq] at hwithin
    have hset := treeOk_setTree h hwithin
    dsimp only
    split
    · exact ⟨hset.v4, hset.v6, hset.macs⟩
    · exact h

/-- A rule is one prefix for the tree, or none that can be read. -/
theorem ptreeAddRule_cases (p : Option (PTree E.P)) (line : List Char) :
    E.ptreeAddRule p line = some (none, p) ∨ ∃ f add bits, E.ptreeAddRule p line = E.addToPtree p f add bits := by
  unfold Env.ptreeAddRule
  generalize (if line.head? = some '[' then line.dropLast.tail else line) = line
  simp only
  split
  · exact .inr ⟨_, _, _, rfl⟩
  · split
    · split
      · exact .inr ⟨_, _, _, rfl⟩
      · exact .inl rfl
    · split
      · exact .inr ⟨_, _, _, rfl⟩
      · exact .inl rfl

theorem ptreeAddRule_within {p p' : Option (PTree E.P)} {line : List Char} {r : Option (Prefix Family)} {w : Nat}
    (hw : Within p w) (h : E.ptreeAddRule p line = some (r, p')) : Within p' w := by
  rcases ptreeAddRule_cases p line with h1 | ⟨f, add, bits, h1⟩
  · rw [h1] at h
    cases h
    exact hw
  · rw [h1] at h
    exact addToPtree_within hw h

theorem insertMac_mem {k : Nat} {v : Int64} {l : List (Nat × Int64)} {e : Nat × Int64} (h : e ∈ insertMac k v l) :
    e = (k, v) ∨ e ∈ l := by
  induction l with
  | nil => exact .inl (List.mem_singleton.mp h)
  | cons a l ih =>
    obtain ⟨j, w⟩ := a
    unfold insertMac at h
    split at h
    · rcases List.mem_cons.mp h with rfl | h
      · exact .inl rfl
      · exact .inr h
    · split at h
      · rcases List.mem_cons.mp h with rfl | h
        · exact .inl rfl
        · exact .inr (List.mem_cons_of_mem _ h)
      · rcases List.mem_cons.mp h with rfl | h
        · exact .inr (List.mem_cons_self ..)
        · rcases ih h with rfl | h
          · exact .inl rfl
          · exact .inr (List.mem_cons_of_mem _ h)

/-- A count of 32 bits is not the number that stands for no number. -/
theorem count_ne (n : UInt32) : n.toUInt64.toInt64 ≠ -1 := by
  intro h
  have hu : n.toUInt64 = (-1 : Int64).toUInt64 := by rw [← h]; rfl
  have hlt := n.toNat_lt
  have hn : n.toUInt64.toNat = n.toNat := UInt32.toNat_toUInt64 n
  rw [hu] at hn
  have : (-1 : Int64).toUInt64.toNat = 18446744073709551615 := by decide
  omega

theorem addAddress_ok {what : List Char} {userData : Int64} {ok : Bool} (h : TreeOk t)
    (ha : t.addAddress what userData = some (ok, t')) : TreeOk t' := by
  unfold AddressTree.addAddress at ha
  simp only at ha
  split at ha
  · rename_i mac hmac
    cases ha
    refine ⟨h.v4, h.v6, fun e he => ?_⟩
    rcases insertMac_mem he with rfl | he
    · refine ⟨?_, mac, rfl⟩
      show (if userData = -1 then _ else _) ≠ _
      split
      · exact count_ne _
      · assumption
    · exact h.macs e he
  · split at ha
    · cases ha
    · rename_i p hp
      cases ha
      exact treeOk_setTree h (ptreeAddRule_within (within_getTree h _) hp)
    · rename_i node p hp
      cases ha
      have hset := treeOk_setTree h (ptreeAddRule_within (within_getTree h _) hp)
      have hdata := treeOk_setNodeU64 hset (decide ('.' ∈ what)) node
        (if userData = -1 then t.numAddresses.toUInt64.toInt64 else userData).toUInt64
      exact ⟨hdata.v4, hdata.v6, hdata.macs⟩

theorem addIpAddress_ok {ipa : IpAddress} (h : TreeOk t) (ha : t.addIpAddress ipa = some t') : TreeOk t' := by
  unfold AddressTree.addIpAddress at ha
  simp only at ha
  split at ha
  · cases ha; exact h
  · split at ha
    · cases ha
    · cases ha; exact h
    · split at ha
      · cases ha
      · rename_i p hp
        cases ha
        exact treeOk_setTree h (addToPtree_within (within_getTree h _) hp)
      · rename_i node p hp
        cases ha
        have hset := treeOk_setTree h (addToPtree_within (within_getTree h _) hp)
        exact ⟨hset.v4, hset.v6, hset.macs⟩

theorem addIpNetwork_ok {ipa : IpAddress} {networkBits : Int} {compactAfterAdd : Bool} {r : Option (Prefix Family)}
    (h : TreeOk t) (ha : t.addIpNetwork ipa networkBits compactAfterAdd = some (r, t')) : TreeOk t' := by
  unfold AddressTree.addIpNetwork at ha
  simp only at ha
  split at ha
  · cases ha; exact h
  · split at ha
    · cases ha
    · cases ha; exact h
    · split at ha
      · cases ha
      · rename_i p hp
        cases ha
        exact treeOk_setTree h (addToPtree_within (within_getTree h _) hp)
      · rename_i node p hp
        cases ha
        have hset := treeOk_setTree h (addToPtree_within (within_getTree h _) hp)
        split
        · exact List.foldlRecOn _ _ hset fun _ hok p _ => treeOk_removePrefix hok _ p
        · exact hset

theorem addDomain_ok {ipa : IpAddress} {networkBits : Int} {nextDomainId : UInt16} (h : TreeOk t)
    (ha : t.addDomain ipa networkBits nextDomainId = some t') : TreeOk t' := by
  unfold AddressTree.addDomain at ha
  simp only at ha
  split at ha
  · cases ha
  · cases ha; exact h
  · split at ha
    · cases ha
    · rename_i hn
      cases ha
      exact addIpNetwork_ok h hn
    · rename_i node t1 hn
      cases ha
      exact treeOk_setNodeU64 (addIpNetwork_ok h hn) _ node _

theorem apply_ok {op : Op} (h : TreeOk t) (ha : apply t op = some t') : TreeOk t' := by
  cases op with
  | text what userData =>
    obtain ⟨⟨ok, t1⟩, h1, rfl⟩ := Option.map_eq_some_iff.mp ha
    exact addAddress_ok h h1
  | address ipa => exact addIpAddress_ok h ha
  | network ipa networkBits compactAfterAdd =>
    obtain ⟨⟨r, t1⟩, h1, rfl⟩ := Option.map_eq_some_iff.mp ha
    exact addIpNetwork_ok h h1
  | domain ipa networkBits nextDomainId => exact addDomain_ok h ha

theorem init_ok (handleIPv6 : Bool) : TreeOk (E := E) (.init handleIPv6) := by
  refine ⟨within_new 32, ?_, fun e he => by cases he⟩
  cases handleIPv6
  · exact within_none 128
  · exact within_new 128

theorem build_ok {ops : List Op} (h : TreeOk t) (hb : build ops t = some t') : TreeOk t' := by
  induction ops generalizing t with
  | nil => cases hb; exact h
  | cons op ops ih =>
    obtain ⟨t1, h1, h2⟩ := Option.bind_eq_some_iff.mp hb
    exact ih (apply_ok h h1) h2

/-! ## What is stored is found -/

theorem fillPrefix_full (ipa : IpAddress) :
    ∃ p, fillPrefix ipa.family ipa.bits ipa.width ipa.width = some p ∧ p.add = ipa.bits ∧ p.bitlen = ipa.width := by
  have hlen : ipa.bits.length = ipa.width := by
    cases ipa with
    | v4 a => exact a.property
    | v6 a => exact a.property
  have hb : 0 ≤ (ipa.width : Int) ∧ (ipa.width : Int).toNat ≤ ipa.width ∧ (ipa.width : Int).toNat ≤ ipa.bits.length := by
    omega
  exact ⟨⟨ipa.family, ipa.bits, (ipa.width : Int).toNat, hb.2.2⟩, by unfold fillPrefix; rw [dif_pos hb], rfl, rfl⟩

/-- The tree of an address. -/
def treeOf (t : AddressTree E) : IpAddress → Option (PTree E.P)
  | .v4 _ => t.ptreeV4
  | .v6 _ => t.ptreeV6

theorem findAddress_none {ipa : IpAddress} (h : treeOf t ipa = none) : t.findAddress ipa.family ipa.bits = (-1, none) := by
  cases ipa with
  | v4 a =>
    have h' : t.ptreeV4 = none := h
    simp only [AddressTree.findAddress, IpAddress.family, h', Option.map_none]
  | v6 a =>
    have h' : t.ptreeV6 = none := h
    simp only [AddressTree.findAddress, IpAddress.family, h', Option.map_none]

/-- A search in a tree of the right width is a search of the patricia tree for the full address. -/
theorem findAddress_some {ipa : IpAddress} {q : PTree E.P} (h : treeOf t ipa = some q) (hw : q.maxbits = ipa.width) :
    ∃ p : Prefix Family, p.add = ipa.bits ∧ p.bitlen = ipa.width ∧
      t.findAddress ipa.family ipa.bits = AddressTree.nodeAnswer (E.P.searchBest q.tree p) := by
  obtain ⟨p, hp, hadd, hbitlen⟩ := fillPrefix_full ipa
  refine ⟨p, hadd, hbitlen, ?_⟩
  rw [← hw] at hp
  cases ipa with
  | v4 a =>
    have h' : t.ptreeV4 = some q := h
    have hp' : fillPrefix .inet a.val 32 q.maxbits = some p := by
      rw [hw] at hp ⊢
      exact hp
    simp only [AddressTree.findAddress, IpAddress.family, IpAddress.bits, h', Option.map_some, Nat.cast_ofNat, hp',
      Option.bind_some]
  | v6 a =>
    have h' : t.ptreeV6 = some q := h
    have hp' : fillPrefix .inet6 a.val 128 q.maxbits = some p := by
      rw [hw] at hp ⊢
      exact hp
    simp only [AddressTree.findAddress, IpAddress.family, IpAddress.bits, h', Option.map_some, Nat.cast_ofNat, hp',
      Option.bind_some]

theorem within_treeOf (h : TreeOk t) (ipa : IpAddress) : Within (treeOf t ipa) ipa.width := by
  cases ipa with
  | v4 a => exact h.v4
  | v6 a => exact h.v6

/-- A tree without nodes answers nothing. -/
theorem findAddress_empty {ipa : IpAddress} (h : TreeOk t) (he : (treeOf t ipa).elim [] PTree.nodes = []) :
    t.findAddress ipa.family ipa.bits = (-1, none) := by
  cases hq : treeOf t ipa with
  | none => exact findAddress_none hq
  | some q =>
    obtain ⟨p, -, -, hfind⟩ := findAddress_some hq (within_treeOf h ipa q hq).1
    rw [hq] at he
    have hnone : E.P.searchBest q.tree p = none := by
      rw [E.P.searchBest_none]
      intro n hn
      have hn' : n ∈ q.nodes := hn
      rw [show q.nodes = [] from he] at hn'
      cases hn'
    rw [hfind, hnone]
    rfl

/-- An address that a node covers has an answer with a network. -/
theorem findAddress_covered {ipa : IpAddress} {q : PTree E.P} {n : Node Family} (h : TreeOk t)
    (hq : treeOf t ipa = some q) (hn : n ∈ q.nodes) (hc : ipa.bits.take n.key.bitlen = n.key.bits) :
    (t.findAddress ipa.family ipa.bits).2 ≠ none := by
  obtain ⟨hmax, hnodes⟩ := within_treeOf h ipa q hq
  obtain ⟨p, hadd, hbitlen, hfind⟩ := findAddress_some hq hmax
  have hcovers : n.key.Covers p := by
    refine ⟨?_, ?_⟩
    · rw [hbitlen]
      exact hnodes n hn
    · rw [hadd]
      exact hc
  rw [hfind]
  cases hs : E.P.searchBest q.tree p with
  | none => exact absurd hcovers ((E.P.searchBest_none _ _).mp hs n hn)
  | some m => exact Option.some_ne_none _

/-- Every node of a tree answers for some address. -/
theorem finds_of_node (h : TreeOk t) (hne : ¬ (t.ptreeV4.elim [] PTree.nodes = [] ∧ t.ptreeV6.elim [] PTree.nodes = [])) :
    ∃ ipa : IpAddress, (t.findAddress ipa.family ipa.bits).2 ≠ none := by
  have hnode : ∀ o : Option (PTree E.P), o.elim [] PTree.nodes ≠ [] → ∃ q n, o = some q ∧ n ∈ q.nodes := by
    intro o ho
    cases o with
    | none => exact absurd rfl ho
    | some q =>
      obtain ⟨n, hn⟩ := List.exists_mem_of_ne_nil _ ho
      exact ⟨q, n, rfl, hn⟩
  by_cases h4 : t.ptreeV4.elim [] PTree.nodes = []
  · have h6 : t.ptreeV6.elim [] PTree.nodes ≠ [] := fun h6 => hne ⟨h4, h6⟩
    obtain ⟨q, n, hq, hn⟩ := hnode _ h6
    obtain ⟨a, hlen, ha⟩ := n.key.exists_covered ((h.v6 q hq).2 n hn)
    exact ⟨.v6 ⟨a, hlen⟩, findAddress_covered h hq hn ha⟩
  · obtain ⟨q, n, hq, hn⟩ := hnode _ h4
    obtain ⟨a, hlen, ha⟩ := n.key.exists_covered ((h.v4 q hq).2 n hn)
    exact ⟨.v4 ⟨a, hlen⟩, findAddress_covered h hq hn ha⟩

/-- And every MAC address for itself. -/
theorem finds_of_mac (h : TreeOk t) (hne : t.macs ≠ []) : ∃ addr, t.findMac addr ≠ -1 := by
  cases hm : t.macs with
  | nil => exact absurd hm hne
  | cons e l =>
    obtain ⟨hid, mac, hmac⟩ := h.macs e (by rw [hm]; exact List.mem_cons_self ..)
    refine ⟨mac, ?_⟩
    unfold AddressTree.findMac
    rw [hm, hmac, List.lookup_cons_self]
    exact hid

/-! ## Reading back -/

/-- `cleanup` leaves no tree. -/
def NoTrees (t : AddressTree E) : Prop := t.ptreeV4 = none ∧ t.ptreeV6 = none

theorem getTree_null (h : NoTrees t) (isV4 : Bool) : t.getTree isV4 = none := by
  cases isV4
  · exact h.2
  · exact h.1

theorem setTree_null (h : NoTrees t) (isV4 : Bool) : t.setTree isV4 none = t := by
  obtain ⟨h4, h6⟩ := h
  cases t
  cases h4
  cases h6
  cases isV4 <;> rfl

/-- Without trees an address is either a MAC address or lost. -/
theorem addAddress_null {what : List Char} {userData : Int64} {ok : Bool} (h : NoTrees t)
    (ha : t.addAddress what userData = some (ok, t')) : NoTrees t' ∧ (scanMac what = none → t' = t) := by
  unfold AddressTree.addAddress at ha
  cases hmac : scanMac what with
  | some mac =>
    simp only [hmac] at ha
    cases ha
    exact ⟨h, fun hn => by cases hn⟩
  | none =>
    simp only [hmac, getTree_null h] at ha
    have hnone : ∀ r, E.ptreeAddRule none what = some r → r = (none, none) := by
      intro r hr
      rcases ptreeAddRule_cases (none : Option (PTree E.P)) what with h1 | ⟨f, add, bits, h1⟩
      · rw [h1] at hr
        exact (Option.some.inj hr).symm
      · rw [h1] at hr
        exact addToPtree_none hr
    cases hrule : E.ptreeAddRule none what with
    | none => simp only [hrule] at ha; cases ha
    | some r =>
      cases hnone r hrule
      simp only [hrule, setTree_null h] at ha
      cases ha
      exact ⟨h, fun _ => rfl⟩

theorem addAll_null {l : List (List Char × Int64)} (h : NoTrees t) (ha : AddressTree.addAll l t = some t') :
    NoTrees t' := by
  induction l generalizing t with
  | nil => cases ha; exact h
  | cons e l ih =>
    unfold AddressTree.addAll at ha
    cases h1 : t.addAddress e.1 e.2 with
    | none => simp only [h1] at ha; cases ha
    | some r =>
      simp only [h1] at ha
      exact ih (addAddress_null h h1).1 ha

theorem addAll_items {l : List (List Char × Int64)} (h : NoTrees t) (hl : ∀ e ∈ l, scanMac e.1 = none)
    (ha : AddressTree.addAll l t = some t') : t' = t := by
  induction l generalizing t with
  | nil => cases ha; rfl
  | cons e l ih =>
    unfold AddressTree.addAll at ha
    cases h1 : t.addAddress e.1 e.2 with
    | none => simp only [h1] at ha; cases ha
    | some r =>
      simp only [h1] at ha
      have hr : r.2 = t := (addAddress_null h h1).2 (hl e (List.mem_cons_self ..))
      rw [hr] at ha
      exact ih h (fun e he => hl e (List.mem_cons_of_mem _ he)) ha

/-! ## A number is no MAC address -/

theorem digits_suffix (base width n v : Nat) (s : List Char) : (digits base width n v s).2.2 <:+ s := by
  induction width generalizing n v s with
  | zero => cases s <;> exact List.suffix_refl _
  | succ width ih =>
    cases s with
    | nil => exact List.suffix_refl _
    | cons c s =>
      unfold digits
      cases digit base c with
      | none => exact List.suffix_refl _
      | some d => exact (ih (n + 1) (v * base + d) s).trans (List.suffix_cons c s)

theorem sign_suffix (s : List Char) : (sign s).2.2 <:+ s := by
  unfold sign
  split
  · exact List.suffix_cons _ _
  · exact List.suffix_cons _ _
  · exact List.suffix_refl _

theorem scan_suffix {base width : Nat} {s rest : List Char} {v : Nat} (h : scan base width s = some (v, rest)) :
    rest <:+ s := by
  unfold scan at h
  simp only at h
  split at h
  · cases h
  · cases h
    exact (digits_suffix ..).trans ((sign_suffix _).trans (List.dropWhile_suffix _))

/-- Six numbers need a separator. -/
theorem scanMac_sep {s : List Char} (h : ':' ∉ s) : scanMac s = none := by
  have hlen : (scanMany (scan 16 2) ':' 6 s).length ≤ 1 := by
    unfold scanMany
    cases h1 : scan 16 2 s with
    | none => exact Nat.zero_le _
    | some r =>
      obtain ⟨v, rest⟩ := r
      have hsuffix := scan_suffix h1
      cases rest with
      | nil => exact Nat.le_refl _
      | cons c rest =>
        have hc : c ≠ ':' := by
          rintro rfl
          exact h (hsuffix.subset (List.mem_cons_self ..))
        simp only [hc, if_false, List.length_singleton, Nat.le_refl]
  unfold scanMac
  simp only
  rw [if_neg (by omega)]

theorem macEntry_sep (e : Nat × Int64) : ':' ∉ AddressTree.macEntry e := by
  intro h
  have hmem := List.mem_of_mem_take h
  have hdigit := Nat.isDigit_of_mem_toDigits (by decide) (by decide) hmem
  revert hdigit
  decide

/-! ## Lookups that answer nothing -/

structure FindsNothing (t : AddressTree E) : Prop where
  address : ∀ ipa : IpAddress, t.findAddress ipa.family ipa.bits = (-1, none)
  mac : ∀ addr, t.findMac addr = -1

/-- The lookup of text is one of the other two. -/
theorem sameLookup_of (ha : ∀ ipa : IpAddress, t'.findAddress ipa.family ipa.bits = t.findAddress ipa.family ipa.bits)
    (hm : ∀ addr, t'.findMac addr = t.findMac addr) : SameLookup t t' := by
  refine ⟨ha, hm, fun addr => ?_⟩
  unfold AddressTree.find
  split
  · cases E.inetPton4 addr with
    | none => rfl
    | some a => exact ha (.v4 a)
  · cases scanMac addr with
    | some mac => simp only [hm]
    | none =>
      cases E.inetPton6 addr with
      | none => rfl
      | some a => exact ha (.v6 a)

theorem sameLookup_nothing (h' : FindsNothing t') : SameLookup t t' ↔ FindsNothing t := by
  constructor
  · intro h
    exact ⟨fun ipa => (h.address ipa).symm.trans (h'.address ipa), fun addr => (h.mac addr).symm.trans (h'.mac addr)⟩
  · intro h
    exact sameLookup_of (fun ipa => (h'.address ipa).trans (h.address ipa).symm)
      fun addr => (h'.mac addr).trans (h.mac addr).symm

theorem findsNothing_iff (h : TreeOk t) : FindsNothing t ↔ Empty t := by
  constructor
  · intro hn
    have htrees : t.ptreeV4.elim [] PTree.nodes = [] ∧ t.ptreeV6.elim [] PTree.nodes = [] := by
      by_contra hne
      obtain ⟨ipa, hipa⟩ := finds_of_node h hne
      rw [hn.address ipa] at hipa
      exact hipa rfl
    have hmacs : t.macs = [] := by
      by_contra hne
      obtain ⟨addr, haddr⟩ := finds_of_mac h hne
      exact haddr (hn.mac addr)
    exact ⟨htrees.1, htrees.2, hmacs⟩
  · intro he
    constructor
    · intro ipa
      apply findAddress_empty h
      cases ipa with
      | v4 a => exact he.v4
      | v6 a => exact he.v6
    · intro addr
      unfold AddressTree.findMac
      rw [he.macs]
      rfl

theorem empty_init (handleIPv6 : Bool) : Empty (E := E) (.init handleIPv6) := by
  have hnew : ∀ w, PTree.nodes (PTree.new w : PTree E.P) = [] := fun w => E.P.nodes_new w
  refine ⟨hnew 32, ?_, rfl⟩
  cases handleIPv6
  · rfl
  · exact hnew 128

theorem findAddress_noTrees (h : NoTrees t) (ipa : IpAddress) : t.findAddress ipa.family ipa.bits = (-1, none) := by
  apply findAddress_none
  cases ipa with
  | v4 a => exact h.1
  | v6 a => exact h.2

theorem findsNothing_cleanup (t : AddressTree E) : FindsNothing t.cleanup :=
  ⟨findAddress_noTrees ⟨rfl, rfl⟩, fun _ => rfl⟩

/-! ## Saved and read back -/

/-- A document that fits is read as a whole, and none of its entries comes back. -/
theorem restored_fits {target : AddressTree E} {bufLen : UInt32} (h : TreeOk t) (hj : JsonOk E t.doc)
    (hf : Fits t bufLen) : Restored t target (t.serialize bufLen) ↔ Empty t := by
  obtain ⟨json, hw, hlen⟩ := hf
  have hser : t.serialize bufLen = some json := by
    unfold AddressTree.serialize
    rw [hw, Option.map_some, List.take_of_length_le (Nat.le_min.mpr ⟨hlen, Nat.le_refl _⟩)]
  have hdes : target.deserialize (some json) =
      (AddressTree.addAll (AddressTree.docCalls t.doc) target.cleanup).map fun r => (true, r) := by
    unfold AddressTree.deserialize
    rw [Option.bind_some, hj.whole json hw]
  have hcalls : t.ptreeV4.elim [] PTree.nodes = [] ∧ t.ptreeV6.elim [] PTree.nodes = [] →
      AddressTree.docCalls t.doc = t.macs.map fun e => (AddressTree.macEntry e, -1) := by
    rintro ⟨h4, h6⟩
    simp [AddressTree.docCalls, AddressTree.doc, AddressTree.treeEntries, h4, h6]
  rw [hser]
  constructor
  · rintro ⟨ok, r, hr, hsame⟩
    rw [hdes] at hr
    obtain ⟨r', hadd, heq⟩ := Option.map_eq_some_iff.mp hr
    cases heq
    have hnull : NoTrees r := addAll_null (t := target.cleanup) ⟨rfl, rfl⟩ hadd
    have hnothing : ∀ ipa : IpAddress, t.findAddress ipa.family ipa.bits = (-1, none) := fun ipa =>
      (hsame.address ipa).symm.trans (findAddress_noTrees hnull ipa)
    have htrees : t.ptreeV4.elim [] PTree.nodes = [] ∧ t.ptreeV6.elim [] PTree.nodes = [] := by
      by_contra hne
      obtain ⟨ipa, hipa⟩ := finds_of_node h hne
      rw [hnothing ipa] at hipa
      exact hipa rfl
    have hclean : r = target.cleanup := by
      rw [hcalls htrees] at hadd
      refine addAll_items ⟨rfl, rfl⟩ (fun e he => ?_) hadd
      obtain ⟨m, -, rfl⟩ := List.mem_map.mp he
      exact scanMac_sep (macEntry_sep m)
    rw [hclean, sameLookup_nothing (findsNothing_cleanup target)] at hsame
    exact (findsNothing_iff h).mp hsame
  · intro he
    have hnil : AddressTree.docCalls t.doc = [] := by
      rw [hcalls ⟨he.v4, he.v6⟩, he.macs]
      rfl
    rw [hnil] at hdes
    exact ⟨true, target.cleanup, hdes,
      (sameLookup_nothing (findsNothing_cleanup target)).mpr ((findsNothing_iff h).mpr he)⟩

/-- A document that is cut off, or was never written, leaves the tree as it was. -/
theorem restored_cut {target : AddressTree E} {bufLen : UInt32} (hj : JsonOk E t.doc) (hf : ¬ Fits t bufLen) :
    Restored t target (t.serialize bufLen) ↔ SameLookup t target := by
  have hdes : target.deserialize (t.serialize bufLen) = some (false, target) := by
    unfold AddressTree.deserialize AddressTree.serialize
    cases hw : E.write t.doc with
    | none => rfl
    | some json =>
      have hlt : (bufLen - 1).toNat < json.length := by
        by_contra hge
        exact hf ⟨json, hw, Nat.le_of_not_lt hge⟩
      rw [Option.map_some, Nat.min_eq_left (Nat.le_of_lt hlt), Option.bind_some, hj.cut json hw _ hlt]
  constructor
  · rintro ⟨ok, r, hr, hsame⟩
    rw [hdes] at hr
    cases hr
    exact hsame
  · intro hsame
    exact ⟨false, target, hdes, hsame⟩

/-- Over every tree that can be built, every buffer and every tree to read it into: the tree read back answers as
    the one that was saved exactly when the document fits and there was nothing to save, or it does not fit and the
    other tree answered so before. The broadcast domains come back exactly when there were none. -/
theorem restored_iff (handleIPv6 : Bool) (ops : List Op) (t target : AddressTree E) (bufLen : UInt32)
    (hb : build ops (.init handleIPv6) = some t) (hj : JsonOk E t.doc) :
    (Restored t target (t.serialize bufLen) ↔
      (Fits t bufLen ∧ Empty t) ∨ (¬ Fits t bufLen ∧ SameLookup t target)) ∧
    (BroadcastDomainsRestored t ↔ Empty t) := by
  have h : TreeOk t := build_ok (init_ok handleIPv6) hb
  constructor
  · by_cases hf : Fits t bufLen
    · rw [restored_fits h hj hf]
      simp [hf]
    · rw [restored_cut hj hf]
      simp [hf]
  · unfold BroadcastDomainsRestored saveBroadcastDomains
    by_cases hf : Fits t 256
    · exact restored_fits h hj hf
    · rw [restored_cut hj hf, sameLookup_nothing ((findsNothing_iff (init_ok true)).mpr (empty_init true))]
      exact findsNothing_iff h

/-! ## One network -/

def jsonText (d : Doc) : List Char :=
  let ip := (d.ip.getD []).map fun e => '"' :: e.1 ++ "\":".toList ++ Nat.toDigits 10 e.2.toNat
  let mac := (d.mac.getD []).map fun item => '"' :: item ++ ['"']
  "\x7b\"ip\":\x7b".toList ++ (ip.intersperse [',']).flatten ++ "\x7d,\"mac\":[".toList ++
    (mac.intersperse [',']).flatten ++ "]\x7d".toList

def oneNetworkDoc : Doc := ⟨some [("10.0.0.0/8".toList, 5)], some []⟩

/-- Lists for the trees, and a parser that knows one document. -/
def oneNetworkEnv : Env where
  P := .ofList
  nullOk := true
  inetPton4 _ := none
  inetPton6 _ := none
  inetNtop6 _ := []
  write d := some (jsonText d)
  parse s := if s = jsonText oneNetworkDoc then some oneNetworkDoc else none

theorem one_network_built : ∃ t : AddressTree oneNetworkEnv,
    build [.text "10.0.0.0/8".toList 5] (.init true) = some t ∧ t.doc = oneNetworkDoc := by
  have hdoc : ((build [.text "10.0.0.0/8".toList 5] (.init true : AddressTree oneNetworkEnv)).map fun t => t.doc) =
      some oneNetworkDoc := by decide
  obtain ⟨t, ht, hd⟩ := Option.map_eq_some_iff.mp hdoc
  exact ⟨t, ht, hd⟩

theorem one_network_parse (s : List Char) :
    oneNetworkEnv.parse s = if s = jsonText oneNetworkDoc then some oneNetworkDoc else none := rfl

theorem one_network_json : JsonOk oneNetworkEnv oneNetworkDoc := by
  constructor
  · intro json h
    have hjson : jsonText oneNetworkDoc = json := Option.some.inj h
    rw [one_network_parse, if_pos hjson.symm]
  · intro json h n hn
    have hjson : jsonText oneNetworkDoc = json := Option.some.inj h
    rw [one_network_parse, if_neg]
    intro heq
    have hlen := congrArg List.length heq
    rw [List.length_take, hjson] at hlen
    omega

theorem restored_one_network : ∃ t : AddressTree oneNetworkEnv,
    (Restored t (.init true) (t.serialize 256) ↔
      (Fits t 256 ∧ Empty t) ∨ (¬ Fits t 256 ∧ SameLookup t (.init true))) ∧
    (BroadcastDomainsRestored t ↔ Empty t) := by
  obtain ⟨t, ht, hd⟩ := one_network_built
  exact ⟨t, restored_iff true _ t (.init true) 256 ht (hd ▸ one_network_json)⟩

/-- The network 10.0.0.0/8 with the number 5, in a document that fits, is not there when it is read back. -/
theorem one_network_lost :
    ¬ ∀ (E : Env) (handleIPv6 : Bool) (ops : List Op) (t target : AddressTree E) (bufLen : UInt32),
      build ops (.init handleIPv6) = some t → JsonOk E t.doc → Fits t bufLen →
        Restored t target (t.serialize bufLen) := by
  intro h
  obtain ⟨t, ht, hd⟩ := one_network_built
  have hj : JsonOk oneNetworkEnv t.doc := hd ▸ one_network_json
  have hfits : Fits t 256 := by
    refine ⟨jsonText oneNetworkDoc, by rw [hd]; rfl, ?_⟩
    decide
  have hempty := (restored_fits (build_ok (init_ok true) ht) hj hfits).mp (h _ true _ t (.init true) 256 ht hj hfits)
  have hip : t.doc.ip = some [] := by
    simp [AddressTree.doc, AddressTree.treeEntries, hempty.v4, hempty.v6]
  rw [hd] at hip
  cases hip

end Ntopng.Addresses
