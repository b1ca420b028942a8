/-
  Ntopng.Addresses.Counts — the address counters of a tree, and compaction
  (src/AddressTree.cpp, src/BroadcastDomains.cpp).

  A tree counts the addresses it holds, and those of each family. Prefixes are added one
  address at a time, as networks, or from text; a network may be added with compaction, which
  removes the longer prefixes below it through `removePrefix`. Broadcast domains are added
  that way.

  The prefix trees do what they are documented to do (`Patricia.Lawful`). A call that leaves
  a prefix unfilled, or looks up in no tree, is a fault.

  Proved, over every run of calls from an empty tree:
  - `tidy_run`: as long as only single addresses and networks with compaction are added, the
    prefixes of each family are an antichain, and cover what was added and not removed.
  - `law_iff_quiet`: the counters are right all along exactly when every call is `Quiet`: it
    adds nothing new, unless it is that of a single address, and does not fault.
  Two networks are enough for the counters to wrap below zero (`compaction_wraps`).
-/

import Ntopng.Lib.Run
import Ntopng.Lib.Words
import Ntopng.Addresses.Restore

namespace Ntopng.Addresses.Counts

open Ntopng.Lib.Prefixes Ntopng.Lib.Words Ntopng.Lib.Run

variable {E : Env}

/-! ## What a tree holds -/

def isV4 (ipa : IpAddress) : Bool := decide (ipa.family = .inet)

/-- The distinct prefixes of a family. -/
def prefixes (t : AddressTree E) (v4 : Bool) : Finset (List Bool) := (t.getTree v4).elim ∅ fun q => E.P.words q.tree

def macSet (t : AddressTree E) : Finset ℕ := (t.macs.map Prod.fst).toFinset

def num (t : AddressTree E) (v4 : Bool) : UInt32 := if v4 then t.numAddressesIPv4 else t.numAddressesIPv6

def total (t : AddressTree E) : ℕ := (prefixes t true).card + (prefixes t false).card + (macSet t).card

structure Exact (t : AddressTree E) : Prop where
  all : t.numAddresses.toNat = total t
  family : ∀ v4, (num t v4).toNat = (prefixes t v4).card

/-! ## Runs -/

inductive Ev where
  | add (op : Op)
  | remove (v4 : Bool) (p : Prefix Family)

/-- The prefix a text names, as `ptree_add_rule` reads it. -/
def ruleOf (E : Env) (addrLine : List Char) : Option (Family × List Bool × Int) :=
  let line := if addrLine.head? = some '[' then addrLine.dropLast.tail else addrLine
  let ip := line.takeWhile (· ≠ '/')
  let slash := (line.dropWhile (· ≠ '/')).tail?
  match scanMac ip with
  | some mac => some (.mac, mac.flatMap fun b => byteBits b.toNat, 48)
  | none =>
    if ':' ∈ ip then (E.inetPton6 ip).map fun addr6 => (.inet6, addr6.val, slash.elim 128 atoi)
    else
      let ip4 := scanOctets ip
      if ip4.length ≥ 1 then
        let octet (i : Nat) := byteBits (ip4.getD i 0 % 256)
        some (.inet, octet 0 ++ octet 1 ++ octet 2 ++ octet 3, min (slash.elim 32 atoi) 32)
      else none

/-- The family and the word of the prefix a call asks for. -/
def asked (E : Env) : Op → Option (Bool × List Bool)
  | .text what _ =>
    match scanMac what with
    | some _ => none
    | none => (ruleOf E what).map fun r => (decide ('.' ∈ what), r.2.1.take r.2.2.toNat)
  | .address ipa => some (isV4 ipa, ipa.bits)
  | .network ipa networkBits _ => some (isV4 ipa, ipa.bits.take networkBits.toNat)
  | .domain ipa networkBits _ => some (isV4 ipa, ipa.bits.take networkBits.toNat)

structure Sys (E : Env) where
  tree : Option (AddressTree E)
  /-- By family, the words of the prefixes added, less those of the prefixes removed. -/
  wanted : Bool → Set (List Bool)

/-- What is wanted after a call. A family without a tree takes nothing. -/
def want (t : AddressTree E) (wanted : Bool → Set (List Bool)) : Ev → Bool → Set (List Bool)
  | .add op, v4 =>
    match asked E op with
    | some (v, w) => if v = v4 ∧ t.getTree v ≠ none then wanted v4 ∪ {a | w <+: a} else wanted v4
    | none => wanted v4
  | .remove v p, v4 => if v = v4 ∧ p.bits ∈ prefixes t v then wanted v4 \ {a | p.bits <+: a} else wanted v4

def act (t : AddressTree E) : Ev → Option (AddressTree E)
  | .add op => apply t op
  | .remove v4 p => some (t.removePrefix v4 p)

/-- Nothing comes after a fault. -/
def step (s : Sys E) (e : Ev) : Sys E :=
  match s.tree with
  | none => s
  | some t => ⟨act t e, want t s.wanted e⟩

def start (E : Env) (handleIPv6 : Bool) : Sys E := ⟨some (.init handleIPv6), fun _ => ∅⟩

def Counted (s : Sys E) : Prop := ∃ t, s.tree = some t ∧ Exact t

structure Tidy (t : AddressTree E) (wanted : Bool → Set (List Bool)) : Prop where
  antichain : ∀ v4, Antichain (prefixes t v4)
  covers : ∀ v4 a, Covers (prefixes t v4) a ↔ a ∈ wanted v4

/-- Compaction is enabled; a single address has nothing below it. -/
def Compacting : Ev → Prop
  | .add (.text ..) => False
  | .add (.address _) => True
  | .add (.network _ _ compactAfterAdd) => compactAfterAdd = true
  | .add (.domain ..) => True
  | .remove .. => True

/-- The counters are right in every state, and with compaction the prefixes are tidy in every state. -/
def Law (s : Sys E) (es : List Ev) : Prop :=
  Always step Counted s es ∧
    ((∀ e ∈ es, Compacting e) → Always step (fun s => ∀ t, s.tree = some t → Tidy t s.wanted) s es)

def InRange (ipa : IpAddress) (networkBits : Int) : Prop := 0 ≤ networkBits ∧ networkBits ≤ ipa.width

/-- No tree for the family, or the network is covered already. -/
def Known (t : AddressTree E) (ipa : IpAddress) (networkBits : Int) : Prop :=
  t.getTree (isV4 ipa) = none ∨
    (InRange ipa networkBits ∧ Covers (prefixes t (isV4 ipa)) (ipa.bits.take networkBits.toNat))

/-- A text names a MAC address that is there, or nothing, or is for a tree that is not there; an address or
    network is covered already, or for no tree; a new address finds room in the counter. -/
def Quiet (t : AddressTree E) : Ev → Prop
  | .add (.text what _) =>
    match scanMac what with
    | some mac => mac2int mac ∈ macSet t
    | none => ruleOf E what = none ∨ (t.getTree (decide ('.' ∈ what)) = none ∧ E.nullOk = true)
  | .add (.address ipa) =>
    t.getTree (isV4 ipa) = none ∨ Covers (prefixes t (isV4 ipa)) ipa.bits ∨ total t + 1 < 2 ^ 32
  | .add (.network ipa networkBits _) => Known t ipa networkBits
  | .add (.domain ipa networkBits _) => Known t ipa networkBits
  | .remove .. => True

/-! ## The prefix trees -/

variable {t t' : AddressTree E}

theorem getTree_setTree (t : AddressTree E) (v v' : Bool) (p : Option (PTree E.P)) :
    (t.setTree v p).getTree v' = if v = v' then p else t.getTree v' := by
  cases v <;> cases v' <;> rfl

theorem prefixes_of {v : Bool} {p : Option (PTree E.P)} (h : t.getTree v = p) :
    prefixes t v = p.elim ∅ fun q => E.P.words q.tree := by
  rw [prefixes, h]

theorem prefixes_congr {v : Bool} (h : t'.getTree v = t.getTree v) : prefixes t' v = prefixes t v := by
  rw [prefixes, prefixes, h]

/-- The addresses are in the tree of their width, and there is one for IPv4. -/
structure Shaped (t : AddressTree E) : Prop where
  width : ∀ v q, t.getTree v = some q → q.maxbits = if v then 32 else 128
  v4 : t.getTree true ≠ none

theorem shaped_init (handleIPv6 : Bool) : Shaped (E := E) (.init handleIPv6) := by
  constructor
  · intro v q hq
    cases v
    · cases handleIPv6 <;> cases hq
      rfl
    · cases hq
      rfl
  · exact Option.some_ne_none _

/-- What a change of the tree `v` to one of the same width keeps. -/
theorem Shaped.of_trees (h : Shaped t) (ht : ∀ v, (t'.getTree v).map PTree.maxbits = (t.getTree v).map PTree.maxbits) :
    Shaped t' := by
  constructor
  · intro v q' hq'
    have hv := ht v
    rw [hq'] at hv
    cases hq : t.getTree v with
    | none => rw [hq] at hv; cases hv
    | some q =>
      rw [hq] at hv
      rw [Option.some.inj hv]
      exact h.width v q hq
  · intro hn
    have hv := ht true
    rw [hn] at hv
    cases hq : t.getTree true with
    | none => exact h.v4 hq
    | some q => rw [hq] at hv; cases hv

theorem maxbits_of (h : Shaped t) {ipa : IpAddress} {q : PTree E.P} (hq : t.getTree (isV4 ipa) = some q) :
    q.maxbits = ipa.width := by
  rw [h.width _ q hq]
  cases ipa <;> rfl

theorem length_ipa (ipa : IpAddress) : ipa.bits.length = ipa.width := by
  cases ipa with
  | v4 a => exact a.property
  | v6 a => exact a.property

theorem fillPrefix_some {ipa : IpAddress} {bits : Int} (h : InRange ipa bits) :
    ∃ p, fillPrefix ipa.family ipa.bits bits ipa.width = some p ∧ p.bits = ipa.bits.take bits.toNat ∧
      p.bitlen = bits.toNat := by
  have hlen := length_ipa ipa
  have hb : 0 ≤ bits ∧ bits.toNat ≤ ipa.width ∧ bits.toNat ≤ ipa.bits.length := by
    have := h.1
    have := h.2
    omega
  exact ⟨⟨ipa.family, ipa.bits, bits.toNat, hb.2.2⟩, by unfold fillPrefix; rw [dif_pos hb], rfl, rfl⟩

theorem fillPrefix_none {ipa : IpAddress} {bits : Int} (h : ¬ InRange ipa bits) :
    fillPrefix ipa.family ipa.bits bits ipa.width = none := by
  unfold fillPrefix
  rw [dif_neg]
  rintro ⟨h0, hw, -⟩
  exact h ⟨h0, by omega⟩

theorem inRange_width (ipa : IpAddress) : InRange ipa ipa.width := ⟨Int.natCast_nonneg _, le_refl _⟩

theorem ptreeMatch_some {q : PTree E.P} {f : Family} {add : List Bool} {bits : Int} {p : Prefix Family}
    (hp : fillPrefix f add bits q.maxbits = some p) :
    E.ptreeMatch (some q) f add bits = some (E.P.searchBest q.tree p) ∧
      (E.P.searchBest q.tree p = none ↔ ¬ Covers (E.P.words q.tree) p.bits) := by
  constructor
  · simp only [Env.ptreeMatch, hp]
  · rw [E.P.searchBest_none]
    constructor
    · rintro h ⟨k, hk, hkp⟩
      obtain ⟨n, hn, rfl⟩ := mem_keySet.mp hk
      exact h n hn (Prefix.covers_iff.mpr hkp)
    · intro h n hn hc
      exact h ⟨_, mem_keySet.mpr ⟨n, hn, rfl⟩, Prefix.covers_iff.mp hc⟩

theorem addToPtree_some (hP : E.P.Lawful) {q : PTree E.P} {f : Family} {add : List Bool} {bits : Int}
    {p : Prefix Family} (hp : fillPrefix f add bits q.maxbits = some p) :
    ∃ q', E.addToPtree (some q) f add bits = some (some p, some q') ∧ q'.maxbits = q.maxbits ∧
      E.P.words q'.tree = insert p.bits (E.P.words q.tree) := by
  obtain ⟨tree, hl, hw⟩ := hP.lookup q.tree p
  refine ⟨{ q with tree := tree }, ?_, rfl, hw⟩
  simp only [Env.addToPtree, hp, hl]

/-! ## Counters under a change of one family -/

/-- `k` prefixes of the family `v` were taken off the counters, nothing else was counted, and no tree came or went. -/
structure Taken (v : Bool) (k : ℕ) (t t' : AddressTree E) : Prop where
  width : ∀ v', (t'.getTree v').map PTree.maxbits = (t.getTree v').map PTree.maxbits
  other : prefixes t' (!v) = prefixes t (!v)
  macs : macSet t' = macSet t
  all : t'.numAddresses = t.numAddresses - UInt32.ofNat k
  own : num t' v = num t v - UInt32.ofNat k
  rest : num t' (!v) = num t (!v)

theorem taken_zero {v : Bool} (hw : ∀ v', (t'.getTree v').map PTree.maxbits = (t.getTree v').map PTree.maxbits)
    (ho : prefixes t' (!v) = prefixes t (!v)) (hm : macSet t' = macSet t) (ha : t'.numAddresses = t.numAddresses)
    (hn : ∀ v', num t' v' = num t v') : Taken v 0 t t' :=
  ⟨hw, ho, hm, ha.trans (UInt32.sub_zero _).symm, (hn v).trans (UInt32.sub_zero _).symm, hn _⟩

theorem taken_refl (v : Bool) (t : AddressTree E) : Taken v 0 t t :=
  taken_zero (fun _ => rfl) rfl rfl rfl fun _ => rfl

theorem sub_ofNat_sub (n : UInt32) (j k : ℕ) : n - UInt32.ofNat j - UInt32.ofNat k = n - UInt32.ofNat (j + k) := by
  rw [UInt32.ofNat_add, UInt32.sub_eq_add_neg, UInt32.sub_eq_add_neg, UInt32.sub_eq_add_neg, UInt32.neg_add,
    UInt32.add_assoc, UInt32.sub_eq_add_neg]

theorem Taken.trans {v : Bool} {j k : ℕ} {t'' : AddressTree E} (h : Taken v j t t') (h' : Taken v k t' t'') :
    Taken v (j + k) t t'' where
  width v' := (h'.width v').trans (h.width v')
  other := h'.other.trans h.other
  macs := h'.macs.trans h.macs
  all := by rw [h'.all, h.all, sub_ofNat_sub]
  own := by rw [h'.own, h.own, sub_ofNat_sub]
  rest := h'.rest.trans h.rest

/-- The prefix trees of one family are exchanged for others of the same width. -/
theorem taken_setTree {v : Bool} {q q' : PTree E.P} (hq : t.getTree v = some q) (hw : q'.maxbits = q.maxbits) :
    Taken v 0 t (t.setTree v (some q')) := by
  refine taken_zero (fun v' => ?_) (prefixes_congr ?_) ?_ ?_ fun v' => ?_
  · rw [getTree_setTree]
    by_cases hv : v = v'
    · subst hv
      rw [if_pos rfl, hq, Option.map_some, Option.map_some, hw]
    · rw [if_neg hv]
  · rw [getTree_setTree, if_neg (by cases v <;> decide)]
  · cases v <;> rfl
  · cases v <;> rfl
  · cases v <;> cases v' <;> rfl

theorem prefixes_setTree (t : AddressTree E) (v : Bool) (q : PTree E.P) :
    prefixes (t.setTree v (some q)) v = E.P.words q.tree := by
  rw [prefixes, getTree_setTree, if_pos rfl]
  rfl

theorem removePrefix_spec (hP : E.P.Lawful) (t : AddressTree E) (v : Bool) (p : Prefix Family) :
    prefixes (t.removePrefix v p) v = (prefixes t v).erase p.bits ∧
      Taken v (if p.bits ∈ prefixes t v then 1 else 0) t (t.removePrefix v p) := by
  unfold AddressTree.removePrefix
  cases hq : t.getTree v with
  | none =>
    rw [prefixes_of hq]
    exact ⟨rfl, taken_refl v t⟩
  | some q =>
    have hany : (q.nodes.any fun n => Patricia.sameKey n.key p) = true ↔ p.bits ∈ prefixes t v := by
      rw [prefixes_of hq, List.any_eq_true]
      show _ ↔ p.bits ∈ keySet q.nodes
      rw [mem_keySet]
      simp only [Patricia.sameKey_iff]
    dsimp only
    by_cases hp : p.bits ∈ prefixes t v
    · rw [if_pos (hany.mpr hp), if_pos hp]
      have hset := @taken_setTree E t v q { q with tree := E.P.remove q.tree p } hq rfl
      refine ⟨?_, hset.width, hset.other, hset.macs, rfl, ?_, ?_⟩
      · rw [prefixes_of hq]
        refine (prefixes_congr rfl).trans ((prefixes_setTree t v _).trans ?_)
        exact hP.remove q.tree p
      · cases v <;> rfl
      · cases v <;> rfl
    · rw [if_neg (mt hany.mp hp), if_neg hp, Finset.erase_eq_of_notMem hp]
      exact ⟨rfl, taken_refl v t⟩

/-- Removing prefixes one after the other takes those off that are there. -/
theorem removeAll_spec (hP : E.P.Lawful) (v : Bool) (l : List (Prefix Family)) (t : AddressTree E) :
    prefixes (l.foldl (·.removePrefix v) t) v = prefixes t v \ (l.map Prefix.bits).toFinset ∧
      Taken v (prefixes t v ∩ (l.map Prefix.bits).toFinset).card t (l.foldl (·.removePrefix v) t) := by
  induction l generalizing t with
  | nil =>
    rw [List.map_nil, List.toFinset_nil, Finset.sdiff_empty, Finset.inter_empty]
    exact ⟨rfl, taken_refl v t⟩
  | cons p l ih =>
    obtain ⟨hpre, htaken⟩ := removePrefix_spec hP t v p
    obtain ⟨ihpre, ihtaken⟩ := ih (t.removePrefix v p)
    rw [hpre] at ihpre ihtaken
    have hcard : (if p.bits ∈ prefixes t v then 1 else 0) +
        ((prefixes t v).erase p.bits ∩ (l.map Prefix.bits).toFinset).card =
        (prefixes t v ∩ ((p :: l).map Prefix.bits).toFinset).card := by
      rw [List.map_cons, List.toFinset_cons]
      by_cases hp : p.bits ∈ prefixes t v
      · rw [if_pos hp, Finset.inter_insert_of_mem hp, Finset.erase_inter]
        have hnot : p.bits ∉ (prefixes t v ∩ (l.map Prefix.bits).toFinset).erase p.bits := Finset.notMem_erase _ _
        have hins : ∀ s : Finset (List Bool), insert p.bits s = insert p.bits (s.erase p.bits) := fun s => by grind
        rw [hins (prefixes t v ∩ _), Finset.card_insert_of_notMem hnot, Nat.add_comm]
      · rw [if_neg hp, Finset.inter_insert_of_notMem hp, Finset.erase_eq_of_notMem hp, Nat.zero_add]
    refine ⟨?_, ?_⟩
    · rw [List.foldl_cons, ihpre, List.map_cons, List.toFinset_cons, Finset.sdiff_insert, Finset.erase_sdiff_comm]
    · rw [← hcard, List.foldl_cons]
      exact htaken.trans ihtaken

/-! ## Adding a network -/

/-- The word is new for the family, and with compaction stands for those below it. -/
structure Grown (v : Bool) (w : List Bool) (c : Bool) (t t' : AddressTree E) : Prop where
  prefixes : prefixes t' v = if c then compact w (prefixes t v) else insert w (prefixes t v)
  taken : Taken v (if c then ((Counts.prefixes t v).filter (w <+: ·)).card else 0) t t'

theorem longer_iff {w k : List Bool} (h : w <+: k) : w.length < k.length ↔ k ≠ w := by
  constructor
  · rintro hlt rfl
    exact Nat.lt_irrefl _ hlt
  · intro hne
    refine Nat.lt_of_le_of_ne h.length_le fun hl => hne ?_
    exact (h.eq_of_length hl).symm

/-- The longer prefixes below the one just added are those it covers of the ones before. -/
theorem longer_words {w : List Bool} {s : Finset (List Bool)} (hw : ¬ Covers s w) :
    (insert w s).filter (fun k => w <+: k ∧ w.length < k.length) = s.filter (w <+: ·) := by
  refine Finset.ext fun k => ?_
  rw [Finset.mem_filter, Finset.mem_filter, Finset.mem_insert]
  constructor
  · rintro ⟨rfl | hk, hpre, hlt⟩
    · exact absurd hlt (Nat.lt_irrefl _)
    · exact ⟨hk, hpre⟩
  · rintro ⟨hk, hpre⟩
    refine ⟨.inr hk, hpre, (longer_iff hpre).mpr ?_⟩
    rintro rfl
    exact hw ⟨k, hk, hpre⟩

theorem insert_sdiff_longer {w : List Bool} {s : Finset (List Bool)} (hw : ¬ Covers s w) :
    insert w s \ s.filter (w <+: ·) = compact w s := by
  refine Finset.ext fun k => ?_
  unfold compact
  rw [Finset.mem_sdiff, Finset.mem_insert, Finset.mem_insert, Finset.mem_filter, Finset.mem_filter]
  constructor
  · rintro ⟨rfl | hk, hn⟩
    · exact .inl rfl
    · exact .inr ⟨hk, fun hpre => hn ⟨hk, hpre⟩⟩
  · rintro (rfl | ⟨hk, hn⟩)
    · exact ⟨.inl rfl, fun hk => hw ⟨k, hk.1, List.prefix_refl k⟩⟩
    · exact ⟨.inr hk, fun hh => hn hh.2⟩

theorem largerBitlens_bits {v : Bool} {q : PTree E.P} (hq : t.getTree v = some q) {p : Prefix Family} :
    ((t.largerBitlens v p p.bitlen).map Prefix.bits).toFinset =
      (E.P.words q.tree).filter fun k => p.bits <+: k ∧ p.bits.length < k.length := by
  refine Finset.ext fun k => ?_
  unfold AddressTree.largerBitlens
  rw [hq, List.mem_toFinset, List.mem_map, Finset.mem_filter]
  show _ ↔ k ∈ keySet q.nodes ∧ _
  rw [mem_keySet]
  dsimp only
  simp only [List.mem_filter, List.mem_map, Bool.and_eq_true, decide_eq_true_iff, gt_iff_lt, Int.ofNat_lt]
  constructor
  · rintro ⟨n, ⟨⟨m, hm, rfl⟩, hc, hlt⟩, rfl⟩
    refine ⟨⟨m, hm, rfl⟩, Prefix.covers_iff.mp hc, ?_⟩
    rw [Prefix.length_bits, Prefix.length_bits]
    exact hlt
  · rintro ⟨⟨m, hm, rfl⟩, hpre, hlt⟩
    rw [Prefix.length_bits, Prefix.length_bits] at hlt
    exact ⟨m.key, ⟨⟨m, hm, rfl⟩, Prefix.covers_iff.mpr hpre, hlt⟩, rfl⟩

/-- The prefix is put in, and with compaction the longer ones are removed. -/
theorem grown_insert (hP : E.P.Lawful) {v : Bool} {q q' : PTree E.P} {p : Prefix Family} (hq : t.getTree v = some q)
    (hw : q'.maxbits = q.maxbits) (hwords : E.P.words q'.tree = insert p.bits (E.P.words q.tree))
    (hnew : ¬ Covers (prefixes t v) p.bits) (c : Bool) :
    Grown v p.bits c t
      (if c then ((t.setTree v (some q')).largerBitlens v p p.bitlen).foldl (·.removePrefix v) (t.setTree v (some q'))
       else t.setTree v (some q')) := by
  have hset := taken_setTree hq hw
  have hpre : prefixes (t.setTree v (some q')) v = insert p.bits (prefixes t v) := by
    rw [prefixes_setTree, hwords, prefixes_of hq]
    rfl
  cases c with
  | false => exact ⟨hpre, hset⟩
  | true =>
    have htree : (t.setTree v (some q')).getTree v = some q' := by rw [getTree_setTree, if_pos rfl]
    obtain ⟨hall, htaken⟩ := removeAll_spec hP v ((t.setTree v (some q')).largerBitlens v p p.bitlen)
      (t.setTree v (some q'))
    have hlong : (((t.setTree v (some q')).largerBitlens v p p.bitlen).map Prefix.bits).toFinset =
        (prefixes t v).filter (p.bits <+: ·) := by
      rw [largerBitlens_bits htree, ← prefixes_setTree t v q', hpre, longer_words hnew]
    have hinter : insert p.bits (prefixes t v) ∩ (prefixes t v).filter (p.bits <+: ·) =
        (prefixes t v).filter (p.bits <+: ·) :=
      Finset.inter_eq_right.mpr ((Finset.filter_subset _ _).trans (Finset.subset_insert _ _))
    rw [hlong, hpre] at hall htaken
    rw [hinter] at htaken
    refine ⟨hall.trans (insert_sdiff_longer hnew), ?_⟩
    have htrans := hset.trans htaken
    rw [Nat.zero_add] at htrans
    exact htrans

/-- What adding a network comes to. -/
inductive Outcome (t : AddressTree E) (ipa : IpAddress) (bits : Int) (c : Bool) :
    Option (Option (Prefix Family) × AddressTree E) → Prop where
  | noTree (h : t.getTree (isV4 ipa) = none) : Outcome t ipa bits c (some (none, t))
  | fault (h : t.getTree (isV4 ipa) ≠ none) (hr : ¬ InRange ipa bits) : Outcome t ipa bits c none
  | covered (h : t.getTree (isV4 ipa) ≠ none) (hr : InRange ipa bits)
      (hc : Covers (prefixes t (isV4 ipa)) (ipa.bits.take bits.toNat)) (n : Prefix Family) :
      Outcome t ipa bits c (some (some n, t))
  | new (h : t.getTree (isV4 ipa) ≠ none) (hr : InRange ipa bits)
      (hc : ¬ Covers (prefixes t (isV4 ipa)) (ipa.bits.take bits.toNat)) (n : Prefix Family) (t' : AddressTree E)
      (hg : Grown (isV4 ipa) (ipa.bits.take bits.toNat) c t t') : Outcome t ipa bits c (some (some n, t'))

theorem noTree_iff (h : Shaped t) (ipa : IpAddress) :
    (!decide (ipa.family = .inet) && t.ptreeV6.isNone) = true ↔ t.getTree (isV4 ipa) = none := by
  cases ipa with
  | v4 a => exact iff_of_false (by simp [IpAddress.family]) h.v4
  | v6 a =>
    show t.ptreeV6.isNone = true ↔ t.ptreeV6 = none
    exact Option.isNone_iff_eq_none

/-- The search finds a node unless nothing covers the network. -/
theorem match_inRange (h : Shaped t) {ipa : IpAddress} (hn : t.getTree (isV4 ipa) ≠ none) {bits : Int}
    (hr : InRange ipa bits) :
    ∃ r, E.ptreeMatch (t.getTree (isV4 ipa)) ipa.family ipa.bits bits = some r ∧
      (r = none ↔ ¬ Covers (prefixes t (isV4 ipa)) (ipa.bits.take bits.toNat)) := by
  obtain ⟨q, hq⟩ := Option.ne_none_iff_exists'.mp hn
  obtain ⟨p, hp, hbits, -⟩ := fillPrefix_some hr
  rw [← maxbits_of h hq] at hp
  obtain ⟨hmatch, hnone⟩ := ptreeMatch_some hp
  rw [hbits] at hnone
  rw [hq, prefixes_of hq]
  exact ⟨_, hmatch, hnone⟩

theorem match_fault (h : Shaped t) {ipa : IpAddress} (hn : t.getTree (isV4 ipa) ≠ none) {bits : Int}
    (hr : ¬ InRange ipa bits) : E.ptreeMatch (t.getTree (isV4 ipa)) ipa.family ipa.bits bits = none := by
  obtain ⟨q, hq⟩ := Option.ne_none_iff_exists'.mp hn
  rw [hq]
  simp only [Env.ptreeMatch, maxbits_of h hq, fillPrefix_none hr]

theorem add_inRange (hP : E.P.Lawful) (h : Shaped t) {ipa : IpAddress} (hn : t.getTree (isV4 ipa) ≠ none) {bits : Int}
    (hr : InRange ipa bits) (hc : ¬ Covers (prefixes t (isV4 ipa)) (ipa.bits.take bits.toNat)) :
    ∃ p q', E.addToPtree (t.getTree (isV4 ipa)) ipa.family ipa.bits bits = some (some p, some q') ∧
      p.bitlen = bits.toNat ∧
      ∀ c, Grown (isV4 ipa) (ipa.bits.take bits.toNat) c t
        (if c then ((t.setTree (isV4 ipa) (some q')).largerBitlens (isV4 ipa) p p.bitlen).foldl
          (·.removePrefix (isV4 ipa)) (t.setTree (isV4 ipa) (some q'))
        else t.setTree (isV4 ipa) (some q')) := by
  obtain ⟨q, hq⟩ := Option.ne_none_iff_exists'.mp hn
  obtain ⟨p, hp, hbits, hlen⟩ := fillPrefix_some hr
  rw [← maxbits_of h hq] at hp
  obtain ⟨q', hadd, hw, hwords⟩ := addToPtree_some hP hp
  rw [← hbits] at hc ⊢
  rw [hq]
  exact ⟨p, q', hadd, hlen, grown_insert hP hq hw hwords hc⟩

theorem network_outcome (hP : E.P.Lawful) (h : Shaped t) (ipa : IpAddress) (bits : Int) (c : Bool) :
    Outcome t ipa bits c (t.addIpNetwork ipa bits c) := by
  unfold AddressTree.addIpNetwork
  by_cases hn : t.getTree (isV4 ipa) = none
  · simp only [(noTree_iff h ipa).mpr hn, if_true]
    exact .noTree hn
  simp only [if_neg (mt (noTree_iff h ipa).mp hn)]
  rw [show decide (ipa.family = .inet) = isV4 ipa from rfl]
  by_cases hr : InRange ipa bits
  · obtain ⟨r, hmatch, hnone⟩ := match_inRange h hn hr
    rw [hmatch]
    cases r with
    | some n => exact .covered hn hr (Classical.byContradiction fun hc => by cases hnone.mpr hc) _
    | none =>
      have hc := hnone.mp rfl
      obtain ⟨p, q', hadd, hlen, hg⟩ := add_inRange hP h hn hr hc
      have hclamped : max 0 (min bits (ipa.width : Int)) = (p.bitlen : Int) := by
        have := hr.1
        have := hr.2
        rw [hlen]
        omega
      dsimp only
      rw [hadd, hclamped]
      exact .new hn hr hc _ _ (hg c)
  · rw [match_fault h hn hr]
    exact .fault hn hr

/-- The same for what is left of the tree alone. -/
inductive Result (t : AddressTree E) (ipa : IpAddress) (bits : Int) (c : Bool) : Option (AddressTree E) → Prop where
  | noTree (h : t.getTree (isV4 ipa) = none) : Result t ipa bits c (some t)
  | fault (h : t.getTree (isV4 ipa) ≠ none) (hr : ¬ InRange ipa bits) : Result t ipa bits c none
  | covered (h : t.getTree (isV4 ipa) ≠ none) (hr : InRange ipa bits)
      (hc : Covers (prefixes t (isV4 ipa)) (ipa.bits.take bits.toNat)) : Result t ipa bits c (some t)
  | new (h : t.getTree (isV4 ipa) ≠ none) (hr : InRange ipa bits)
      (hc : ¬ Covers (prefixes t (isV4 ipa)) (ipa.bits.take bits.toNat)) (t' : AddressTree E)
      (hg : Grown (isV4 ipa) (ipa.bits.take bits.toNat) c t t') : Result t ipa bits c (some t')

theorem network_result (hP : E.P.Lawful) (h : Shaped t) (ipa : IpAddress) (bits : Int) (c : Bool) :
    Result t ipa bits c (apply t (.network ipa bits c)) := by
  show Result t ipa bits c ((t.addIpNetwork ipa bits c).map Prod.snd)
  have hout := network_outcome hP h ipa bits c
  generalize t.addIpNetwork ipa bits c = r at hout
  cases hout with
  | noTree hn => exact .noTree hn
  | fault hn hr => exact .fault hn hr
  | covered hn hr hc n => exact .covered hn hr hc
  | new hn hr hc n t' hg => exact .new hn hr hc t' hg

theorem grown_setNode (hP : E.P.Lawful) {v c : Bool} {w : List Bool} (h : Grown v w c t t') (p : Prefix Family)
    (x : UInt64) : Grown v w c t (t'.setNodeU64 v p x) := by
  have hset : prefixes (t'.setNodeU64 v p x) v = prefixes t' v ∧ Taken v 0 t' (t'.setNodeU64 v p x) := by
    unfold AddressTree.setNodeU64
    cases hq : t'.getTree v with
    | none =>
      have hsame : t'.setTree v none = t' := by
        rw [← hq]
        cases v <;> rfl
      rw [Option.map_none, hsame]
      exact ⟨rfl, taken_refl v t'⟩
    | some q =>
      rw [Option.map_some, prefixes_of hq, prefixes_setTree]
      exact ⟨hP.setU64 q.tree p x, taken_setTree hq rfl⟩
  exact ⟨hset.1.trans h.prefixes, h.taken.trans hset.2⟩

theorem domain_result (hP : E.P.Lawful) (h : Shaped t) (ipa : IpAddress) (bits : Int) (x : UInt16) :
    Result t ipa bits true (apply t (.domain ipa bits x)) := by
  show Result t ipa bits true (t.addDomain ipa bits x)
  unfold AddressTree.addDomain
  have hout := network_outcome hP h ipa bits true
  generalize t.addIpNetwork ipa bits true = r at hout
  by_cases hn : t.getTree (isV4 ipa) = none
  · simp only [(noTree_iff h ipa).mpr hn, if_true]
    cases hout with
    | noTree _ => exact .noTree hn
    | fault h' _ | covered h' | new h' => exact absurd hn h'
  simp only [if_neg (mt (noTree_iff h ipa).mp hn)]
  rw [show decide (ipa.family = .inet) = isV4 ipa from rfl]
  by_cases hr : InRange ipa bits
  · obtain ⟨m, hmatch, hnone⟩ := match_inRange h hn hr
    rw [hmatch]
    cases m with
    | some n => exact .covered hn hr (Classical.byContradiction fun hc => by cases hnone.mpr hc)
    | none =>
      cases hout with
      | noTree h' => exact absurd h' hn
      | fault _ h' => exact absurd hr h'
      | covered _ _ hc => exact absurd hc (hnone.mp rfl)
      | new _ _ hc n t' hg => exact .new hn hr hc _ (grown_setNode hP hg n _)
  · rw [match_fault h hn hr]
    exact .fault hn hr

/-! ## Adding one address, and adding from text -/

/-- The word is added to the family and counted. -/
structure One (v : Bool) (w : List Bool) (t t' : AddressTree E) : Prop where
  width : ∀ v', (t'.getTree v').map PTree.maxbits = (t.getTree v').map PTree.maxbits
  prefixes : prefixes t' v = insert w (prefixes t v)
  other : Counts.prefixes t' (!v) = Counts.prefixes t (!v)
  macs : macSet t' = macSet t
  all : t'.numAddresses = t.numAddresses + 1
  own : num t' v = num t v + 1
  rest : num t' (!v) = num t (!v)

theorem address_result (hP : E.P.Lawful) (h : Shaped t) (ipa : IpAddress) :
    ((t.getTree (isV4 ipa) = none ∨ Covers (prefixes t (isV4 ipa)) ipa.bits) ∧ apply t (.address ipa) = some t) ∨
      (t.getTree (isV4 ipa) ≠ none ∧ ¬ Covers (prefixes t (isV4 ipa)) ipa.bits ∧
        ∃ t', apply t (.address ipa) = some t' ∧ One (isV4 ipa) ipa.bits t t') := by
  show (_ ∧ t.addIpAddress ipa = some t) ∨ (_ ∧ _ ∧ ∃ t', t.addIpAddress ipa = some t' ∧ _)
  unfold AddressTree.addIpAddress
  by_cases hn : t.getTree (isV4 ipa) = none
  · simp only [(noTree_iff h ipa).mpr hn, if_true]
    exact .inl ⟨.inl hn, trivial⟩
  simp only [if_neg (mt (noTree_iff h ipa).mp hn)]
  rw [show decide (ipa.family = .inet) = isV4 ipa from rfl]
  have htake : ipa.bits.take (ipa.width : Int).toNat = ipa.bits := by
    rw [Int.toNat_natCast, ← length_ipa, List.take_length]
  obtain ⟨m, hmatch, hnone⟩ := match_inRange h hn (inRange_width ipa)
  rw [htake] at hnone
  rw [hmatch]
  cases m with
  | some n => exact .inl ⟨.inr (Classical.byContradiction fun hc => by cases hnone.mpr hc), rfl⟩
  | none =>
    have hc := hnone.mp rfl
    obtain ⟨p, q', hadd, -, hg⟩ := add_inRange hP h hn (inRange_width ipa) (by rwa [htake])
    have hg := hg false
    rw [htake, if_neg (by decide)] at hg
    dsimp only
    rw [hadd]
    refine .inr ⟨hn, hc, _, rfl, ?_⟩
    have hall : (t.setTree (isV4 ipa) (some q')).numAddresses = t.numAddresses := by cases isV4 ipa <;> rfl
    refine ⟨hg.taken.width, hg.prefixes, hg.taken.other, hg.taken.macs, rfl, ?_, ?_⟩
    · cases isV4 ipa <;> rfl
    · cases isV4 ipa <;> rfl

theorem ptreeAddRule_eq (p : Option (PTree E.P)) (line : List Char) :
    E.ptreeAddRule p line =
      match ruleOf E line with
      | none => some (none, p)
      | some (f, add, bits) => E.addToPtree p f add bits := by
  unfold Env.ptreeAddRule ruleOf
  generalize (if line.head? = some '[' then line.dropLast.tail else line) = line
  dsimp only
  cases scanMac (line.takeWhile (· ≠ '/')) with
  | some mac => rfl
  | none =>
    by_cases hcolon : ':' ∈ line.takeWhile (· ≠ '/')
    · simp only [hcolon, if_true]
      cases E.inetPton6 (line.takeWhile (· ≠ '/')) <;> rfl
    · simp only [hcolon, if_false]
      by_cases hlen : (scanOctets (line.takeWhile (· ≠ '/'))).length ≥ 1
      · simp only [hlen, if_true]
      · simp only [hlen, if_false]

theorem mac_result (t : AddressTree E) {what : List Char} (userData : Int64) {mac : List UInt8}
    (hmac : scanMac what = some mac) :
    ∃ x, apply t (.text what userData) = some { t with macs := insertMac (mac2int mac) x t.macs } := by
  refine ⟨if userData = -1 then t.numAddresses.toUInt64.toInt64 else userData, ?_⟩
  show (t.addAddress what userData).map Prod.snd = _
  simp only [AddressTree.addAddress, hmac, Option.map_some]

/-- What adding a text that is no MAC address comes to. -/
inductive TextResult (t : AddressTree E) (v : Bool) (rule : Option (Family × List Bool × Int)) :
    Option (AddressTree E) → Prop where
  | nothing (h : rule = none ∨ (t.getTree v = none ∧ E.nullOk = true)) : TextResult t v rule (some t)
  | fault (h : rule ≠ none) (hn : t.getTree v = none → E.nullOk = false) : TextResult t v rule none
  | added (h : rule ≠ none) (hn : t.getTree v ≠ none) (w : List Bool) (t' : AddressTree E)
      (width : ∀ v', (t'.getTree v').map PTree.maxbits = (t.getTree v').map PTree.maxbits)
      (own : prefixes t' v = insert w (prefixes t v)) (other : prefixes t' (!v) = prefixes t (!v))
      (macs : macSet t' = macSet t) (all : t'.numAddresses = t.numAddresses + 1)
      (family : ∀ v', num t' v' = num t v') : TextResult t v rule (some t')

theorem text_result (hP : E.P.Lawful) (t : AddressTree E) (what : List Char) (userData : Int64)
    (hmac : scanMac what = none) :
    TextResult t (decide ('.' ∈ what)) (ruleOf E what) (apply t (.text what userData)) := by
  show TextResult t _ _ ((t.addAddress what userData).map Prod.snd)
  unfold AddressTree.addAddress
  dsimp only
  rw [hmac, ptreeAddRule_eq]
  generalize decide ('.' ∈ what) = v
  have hback : t.setTree v (t.getTree v) = t := by cases v <;> rfl
  cases hrule : ruleOf E what with
  | none =>
    dsimp only
    rw [Option.map_some, hback]
    exact .nothing (.inl rfl)
  | some r =>
    obtain ⟨f, add, bits⟩ := r
    dsimp only
    cases hq : t.getTree v with
    | none =>
      by_cases hnull : E.nullOk = true
      · simp only [Env.addToPtree, hnull, if_true, Option.map_some]
        rw [← hq, hback]
        exact .nothing (.inr ⟨hq, hnull⟩)
      · simp only [Env.addToPtree, hnull]
        exact .fault (Option.some_ne_none _) fun _ => Bool.eq_false_of_not_eq_true hnull
    | some q =>
      cases hp : fillPrefix f add bits q.maxbits with
      | none =>
        simp only [Env.addToPtree, hp, Option.map_none]
        exact .fault (Option.some_ne_none _) fun h => by rw [hq] at h; cases h
      | some p =>
        obtain ⟨q', hadd, hw, hwords⟩ := addToPtree_some hP hp
        rw [hadd]
        have hset := taken_setTree hq hw
        have hpre : prefixes (t.setTree v (some q')) v = insert p.bits (prefixes t v) := by
          rw [prefixes_setTree, hwords, prefixes_of hq]
          rfl
        have hnode := grown_setNode hP (⟨hpre, hset⟩ : Grown v p.bits false t _) p
          (if userData = -1 then t.numAddresses.toUInt64.toInt64 else userData).toUInt64
        refine .added (Option.some_ne_none _) (by rw [hq]; exact Option.some_ne_none _) p.bits _ hnode.taken.width
          hnode.prefixes hnode.taken.other hnode.taken.macs rfl fun v' => ?_
        cases v <;> cases v' <;> rfl

/-! ## What the counters say afterwards -/

theorem total_eq (t : AddressTree E) (v : Bool) :
    total t = (prefixes t v).card + (prefixes t (!v)).card + (macSet t).card := by
  unfold total
  cases v
  · rw [Nat.add_comm (prefixes t true).card]
    rfl
  · rfl

theorem exact_iff (v : Bool) :
    Exact t ↔ t.numAddresses.toNat = total t ∧ (num t v).toNat = (prefixes t v).card ∧
      (num t (!v)).toNat = (prefixes t (!v)).card := by
  constructor
  · intro h
    exact ⟨h.all, h.family v, h.family (!v)⟩
  · rintro ⟨hall, hv, hnv⟩
    refine ⟨hall, fun v' => ?_⟩
    by_cases hvv : v' = v
    · rw [hvv]
      exact hv
    · rw [Bool.eq_not_of_ne hvv]
      exact hnv

theorem toNat_sub_ofNat {n : UInt32} {k : ℕ} (h : k ≤ n.toNat) : (n - UInt32.ofNat k).toNat = n.toNat - k := by
  have hk : (UInt32.ofNat k).toNat = k := UInt32.toNat_ofNat_of_lt' (Nat.lt_of_le_of_lt h n.toNat_lt)
  rw [UInt32.toNat_sub_of_le _ _ (UInt32.le_iff_toNat_le.mpr (by rw [hk]; exact h)), hk]

/-- Prefixes that are taken off the counters as well leave them exact. -/
theorem exact_taken {v : Bool} {k : ℕ} (h : Exact t) (ht : Taken v k t t')
    (hcard : (prefixes t' v).card + k = (prefixes t v).card) : Exact t' := by
  have hv := h.family v
  have hall := h.all
  rw [total_eq t v] at hall
  rw [exact_iff v, total_eq t' v, ht.all, ht.own, ht.rest, ht.other, ht.macs, toNat_sub_ofNat (by omega),
    toNat_sub_ofNat (by omega)]
  exact ⟨by omega, by omega, h.family (!v)⟩

theorem grown_card {v c : Bool} {w : List Bool} (hg : Grown v w c t t') (hw : ¬ Covers (prefixes t v) w) :
    ∃ k, Taken v k t t' ∧ k ≤ (prefixes t v).card ∧ (prefixes t' v).card + k = (prefixes t v).card + 1 := by
  refine ⟨_, hg.taken, ?_, ?_⟩
  · cases c
    · exact Nat.zero_le _
    · exact Finset.card_filter_le _ _
  · rw [hg.prefixes]
    cases c with
    | false => exact Finset.card_insert_of_notMem fun hm => hw ⟨w, hm, List.prefix_refl w⟩
    | true =>
      have hnot : w ∉ (prefixes t v).filter fun k => ¬ w <+: k := by
        intro hm
        exact (Finset.mem_filter.mp hm).2 (List.prefix_refl w)
      have hsplit := Finset.card_filter_add_card_filter_not (s := prefixes t v) (w <+: ·)
      simp only [if_true, compact]
      rw [Finset.card_insert_of_notMem hnot]
      omega

/-- A new network is never counted. -/
theorem not_exact_grown {v c : Bool} {w : List Bool} (h : Exact t) (hg : Grown v w c t t')
    (hw : ¬ Covers (prefixes t v) w) : ¬ Exact t' := by
  obtain ⟨k, ht, hk, hcard⟩ := grown_card hg hw
  intro he
  have hv := h.family v
  have he' := he.family v
  rw [ht.own, toNat_sub_ofNat (by omega)] at he'
  omega

theorem exact_one {v : Bool} {w : List Bool} (h : Exact t) (ho : One v w t t') (hw : ¬ Covers (prefixes t v) w) :
    Exact t' ↔ total t + 1 < 2 ^ 32 := by
  have hcard : (insert w (prefixes t v)).card = (prefixes t v).card + 1 :=
    Finset.card_insert_of_notMem fun hm => hw ⟨w, hm, List.prefix_refl w⟩
  have hall := h.all
  have hv := h.family v
  have hlt := t.numAddresses.toNat_lt
  have hone : ∀ n : UInt32, (n + 1).toNat = (n.toNat + 1) % 2 ^ 32 := fun n => by rw [UInt32.toNat_add]; rfl
  rw [exact_iff v, total_eq t' v, ho.all, ho.own, ho.rest, ho.other, ho.macs, ho.prefixes, hcard, hone, hone, hall, hv]
  rw [total_eq t v] at hall ⊢
  constructor
  · rintro ⟨h1, -, -⟩
    have := Nat.mod_lt ((prefixes t v).card + (prefixes t !v).card + (macSet t).card + 1) (Nat.two_pow_pos 32)
    omega
  · intro hroom
    refine ⟨?_, ?_, h.family (!v)⟩
    · rw [Nat.mod_eq_of_lt hroom]
      omega
    · rw [Nat.mod_eq_of_lt]
      omega

theorem macs_insert (k : ℕ) (x : Int64) (l : List (ℕ × Int64)) :
    ((insertMac k x l).map Prod.fst).toFinset = insert k (l.map Prod.fst).toFinset := by
  induction l with
  | nil => rfl
  | cons e l ih =>
    obtain ⟨j, y⟩ := e
    unfold insertMac
    split
    · simp only [List.map_cons, List.toFinset_cons]
    · split
      · rename_i hkj
        subst hkj
        simp only [List.map_cons, List.toFinset_cons, Finset.insert_idem]
      · simp only [List.map_cons, List.toFinset_cons, ih]
        exact Finset.insert_comm _ _ _

/-- MAC addresses are not counted. -/
theorem exact_mac (h : Exact t) {k : ℕ} {x : Int64} :
    Exact { t with macs := insertMac k x t.macs } ↔ k ∈ macSet t := by
  have hset : macSet { t with macs := insertMac k x t.macs } = insert k (macSet t) := macs_insert k x t.macs
  have htotal : total { t with macs := insertMac k x t.macs } =
      (prefixes t true).card + (prefixes t false).card + (insert k (macSet t)).card := by
    unfold total
    rw [hset]
    rfl
  constructor
  · intro he
    refine Classical.byContradiction fun hk => ?_
    have hall := he.all
    rw [htotal, Finset.card_insert_of_notMem hk] at hall
    have hold : t.numAddresses.toNat = _ := h.all
    unfold total at hold
    have hsame : ({ t with macs := insertMac k x t.macs } : AddressTree E).numAddresses.toNat = t.numAddresses.toNat := rfl
    omega
  · intro hk
    refine ⟨?_, h.family⟩
    rw [htotal, Finset.insert_eq_of_mem hk]
    exact h.all

/-- A prefix from text is counted, whether it is new or not, and not for its family. -/
theorem not_exact_text {v : Bool} {w : List Bool} (h : Exact t) (hown : prefixes t' v = insert w (prefixes t v))
    (hother : prefixes t' (!v) = prefixes t (!v)) (hmacs : macSet t' = macSet t)
    (hall : t'.numAddresses = t.numAddresses + 1) (hfam : ∀ v', num t' v' = num t v') : ¬ Exact t' := by
  intro he
  have hnew := he.family v
  rw [hown, hfam v, h.family v] at hnew
  have hmem : w ∈ prefixes t v := by
    refine Classical.byContradiction fun hm => ?_
    rw [Finset.card_insert_of_notMem hm] at hnew
    omega
  have he' := he.all
  rw [total_eq t' v, hown, Finset.insert_eq_of_mem hmem, hother, hmacs, ← total_eq, hall, UInt32.toNat_add, h.all] at he'
  have hlt := t.numAddresses.toNat_lt
  rw [h.all] at hlt
  have hone : (1 : UInt32).toNat = 1 := rfl
  rw [hone] at he'
  omega

/-! ## One step -/

theorem shaped_act (hP : E.P.Lawful) (h : Shaped t) (e : Ev) (ha : act t e = some t') : Shaped t' := by
  have hresult : ∀ ipa bits c r, Result t ipa bits c r → r = some t' → Shaped t' := by
    intro ipa bits c r hr hrt
    cases hr with
    | noTree => exact Option.some.inj hrt ▸ h
    | fault => cases hrt
    | covered => exact Option.some.inj hrt ▸ h
    | new _ _ _ t1 hg => exact Option.some.inj hrt ▸ h.of_trees hg.taken.width
  cases e with
  | remove v p =>
    rw [← Option.some.inj ha]
    exact h.of_trees (removePrefix_spec hP t v p).2.width
  | add op =>
    cases op with
    | network ipa bits c => exact hresult _ _ _ _ (network_result hP h ipa bits c) ha
    | domain ipa bits x => exact hresult _ _ _ _ (domain_result hP h ipa bits x) ha
    | address ipa =>
      rcases address_result hP h ipa with ⟨-, hs⟩ | ⟨-, -, t1, hs, hone⟩
      · exact Option.some.inj (hs.symm.trans ha) ▸ h
      · exact Option.some.inj (hs.symm.trans ha) ▸ h.of_trees hone.width
    | text what userData =>
      cases hmac : scanMac what with
      | some mac =>
        obtain ⟨x, hs⟩ := mac_result t userData hmac
        exact Option.some.inj (hs.symm.trans ha) ▸ h.of_trees fun _ => rfl
      | none =>
        have hr := text_result hP t what userData hmac
        rw [show apply t (.text what userData) = some t' from ha] at hr
        cases hr with
        | nothing => exact h
        | added _ _ _ _ hw => exact h.of_trees hw

/-- An exact tree stays so exactly in a quiet call. -/
theorem exact_act (hP : E.P.Lawful) (h : Shaped t) (hx : Exact t) (e : Ev) :
    (∃ t', act t e = some t' ∧ Exact t') ↔ Quiet t e := by
  have hresult : ∀ ipa bits c r, Result t ipa bits c r → ((∃ t', r = some t' ∧ Exact t') ↔ Known t ipa bits) := by
    intro ipa bits c r hr
    unfold Known
    cases hr with
    | noTree hn => exact iff_of_true ⟨t, rfl, hx⟩ (.inl hn)
    | covered hn hr hc => exact iff_of_true ⟨t, rfl, hx⟩ (.inr ⟨hr, hc⟩)
    | fault hn hr =>
      refine iff_of_false ?_ ?_
      · rintro ⟨t', h', -⟩
        cases h'
      · rintro (h' | h')
        · exact hn h'
        · exact hr h'.1
    | new hn hr hc t1 hg =>
      refine iff_of_false ?_ ?_
      · rintro ⟨t', h', he⟩
        cases h'
        exact not_exact_grown hx hg hc he
      · rintro (h' | h')
        · exact hn h'
        · exact hc h'.2
  cases e with
  | remove v p =>
    obtain ⟨hpre, ht⟩ := removePrefix_spec hP t v p
    refine iff_of_true ⟨_, rfl, exact_taken hx ht ?_⟩ trivial
    rw [hpre]
    split
    · rename_i hp
      exact Finset.card_erase_add_one hp
    · rename_i hp
      rw [Finset.erase_eq_of_notMem hp, Nat.add_zero]
  | add op =>
    cases op with
    | network ipa bits c => exact hresult _ _ _ _ (network_result hP h ipa bits c)
    | domain ipa bits x => exact hresult _ _ _ _ (domain_result hP h ipa bits x)
    | address ipa =>
      show (∃ t', apply t (.address ipa) = some t' ∧ _) ↔ _ ∨ _ ∨ _
      rcases address_result hP h ipa with ⟨hk, hs⟩ | ⟨hn, hc, t1, hs, hone⟩
      · exact iff_of_true ⟨t, hs, hx⟩ (hk.imp_right .inl)
      · rw [hs, or_iff_right hn, or_iff_right hc, ← exact_one hx hone hc]
        constructor
        · rintro ⟨t', h', he⟩
          cases h'
          exact he
        · intro he
          exact ⟨t1, rfl, he⟩
    | text what userData =>
      cases hmac : scanMac what with
      | some mac =>
        obtain ⟨x, hs⟩ := mac_result t userData hmac
        have hq : Quiet t (.add (.text what userData)) ↔ mac2int mac ∈ macSet t := by
          simp only [Quiet, hmac]
        show (∃ t', apply t (.text what userData) = some t' ∧ _) ↔ _
        rw [hs, hq, ← exact_mac hx (x := x)]
        constructor
        · rintro ⟨t', h', he⟩
          cases h'
          exact he
        · intro he
          exact ⟨_, rfl, he⟩
      | none =>
        have hq : Quiet t (.add (.text what userData)) ↔
            ruleOf E what = none ∨ (t.getTree (decide ('.' ∈ what)) = none ∧ E.nullOk = true) := by
          simp only [Quiet, hmac]
        rw [hq]
        have hr := text_result hP t what userData hmac
        show (∃ t', apply t (.text what userData) = some t' ∧ _) ↔ _
        generalize apply t (.text what userData) = r at hr
        cases hr with
        | nothing hno => exact iff_of_true ⟨t, rfl, hx⟩ hno
        | fault hrule hnull =>
          refine iff_of_false ?_ ?_
          · rintro ⟨t', h', -⟩
            cases h'
          · rintro (h' | ⟨hn, h'⟩)
            · exact hrule h'
            · rw [hnull hn] at h'
              cases h'
        | added hrule hn w t1 hw hown hother hmacs hall hfam =>
          refine iff_of_false ?_ ?_
          · rintro ⟨t', h', he⟩
            cases h'
            exact not_exact_text hx hown hother hmacs hall hfam he
          · rintro (h' | ⟨h', -⟩)
            · exact hrule h'
            · exact hn h'

/-! ## Compaction -/

theorem not_ne {v v4 : Bool} (h : v ≠ v4) : v4 = !v := by
  cases v <;> cases v4 <;> first | rfl | exact absurd rfl h

/-- A word is wanted for one family, and its prefixes cover it from then on. -/
theorem tidy_grow {wanted : Bool → Set (List Bool)} (h : Tidy t wanted) {v : Bool} {w : List Bool}
    (hn : t.getTree v ≠ none) (hother : prefixes t' (!v) = prefixes t (!v)) (ha : Antichain (prefixes t' v))
    (hc : ∀ a, Covers (prefixes t' v) a ↔ w <+: a ∨ Covers (prefixes t v) a) :
    Tidy t' fun v4 => if v = v4 ∧ t.getTree v ≠ none then wanted v4 ∪ {a | w <+: a} else wanted v4 := by
  constructor
  · intro v4
    by_cases hv : v = v4
    · exact hv ▸ ha
    · rw [not_ne hv, hother]
      exact h.antichain _
  · intro v4 a
    by_cases hv : v = v4
    · subst hv
      rw [if_pos ⟨rfl, hn⟩, hc, h.covers]
      exact or_comm
    · rw [if_neg fun hh => hv hh.1, not_ne hv, hother]
      exact h.covers _ a

theorem tidy_noTree {wanted : Bool → Set (List Bool)} (h : Tidy t wanted) {v : Bool} (hn : t.getTree v = none)
    (w : List Bool) : Tidy t fun v4 => if v = v4 ∧ t.getTree v ≠ none then wanted v4 ∪ {a | w <+: a} else wanted v4 := by
  have hsame : (fun v4 => if v = v4 ∧ t.getTree v ≠ none then wanted v4 ∪ {a | w <+: a} else wanted v4) = wanted := by
    funext v4
    exact if_neg fun hh => hh.2 hn
  rw [hsame]
  exact h

theorem covered_iff {s : Finset (List Bool)} {w : List Bool} (hc : Covers s w) (a : List Bool) :
    Covers s a ↔ w <+: a ∨ Covers s a := by
  refine ⟨.inr, fun h => h.elim (fun hwa => ?_) id⟩
  obtain ⟨k, hk, hkw⟩ := hc
  exact ⟨k, hk, hkw.trans hwa⟩

theorem tidy_result {wanted : Bool → Set (List Bool)} (h : Tidy t wanted) {ipa : IpAddress} {bits : Int}
    (hr : Result t ipa bits true (some t')) :
    Tidy t' fun v4 => if isV4 ipa = v4 ∧ t.getTree (isV4 ipa) ≠ none then
      wanted v4 ∪ {a | ipa.bits.take bits.toNat <+: a} else wanted v4 := by
  cases hr with
  | noTree hn => exact tidy_noTree h hn _
  | covered hn hr hc => exact tidy_grow h hn rfl (h.antichain _) (covered_iff hc)
  | new hn hr hc _ hg =>
    have hpre := hg.prefixes
    rw [if_pos rfl] at hpre
    refine tidy_grow h hn hg.taken.other ?_ fun a => ?_
    · rw [hpre]
      exact antichain_compact (h.antichain _) hc
    · rw [hpre]
      exact covers_compact

/-- No prefix is longer than a full address. -/
theorem length_le_of_mem (h : TreeOk t) {ipa : IpAddress} {k : List Bool} (hk : k ∈ prefixes t (isV4 ipa)) :
    k.length ≤ ipa.bits.length := by
  rw [length_ipa]
  cases hq : t.getTree (isV4 ipa) with
  | none =>
    rw [prefixes_of hq] at hk
    exact absurd hk (Finset.notMem_empty k)
  | some q =>
    rw [prefixes_of hq] at hk
    obtain ⟨n, hn, rfl⟩ := mem_keySet.mp hk
    rw [Prefix.length_bits]
    have hw := (within_getTree h (isV4 ipa) q hq).2 n hn
    cases ipa <;> exact hw

/-- Nothing lies below a full address. -/
theorem compact_address (h : TreeOk t) {ipa : IpAddress} (hnew : ¬ Covers (prefixes t (isV4 ipa)) ipa.bits) :
    compact ipa.bits (prefixes t (isV4 ipa)) = insert ipa.bits (prefixes t (isV4 ipa)) := by
  unfold compact
  rw [Finset.filter_true_of_mem]
  intro k hk hpre
  have heq : ipa.bits = k := hpre.eq_of_length (Nat.le_antisymm hpre.length_le (length_le_of_mem h hk))
  exact hnew ⟨k, hk, heq ▸ List.prefix_refl _⟩

theorem treeOk_act (h : TreeOk t) {e : Ev} (ha : act t e = some t') : TreeOk t' := by
  cases e with
  | add op => exact apply_ok h ha
  | remove v p => exact Option.some.inj ha ▸ treeOk_removePrefix h v p

theorem tidy_act (hP : E.P.Lawful) (h : Shaped t) (hk : TreeOk t) {wanted : Bool → Set (List Bool)} (ht : Tidy t wanted) {e : Ev}
    (hc : Compacting e) (ha : act t e = some t') : Tidy t' (want t wanted e) := by
  cases e with
  | remove v p =>
    obtain ⟨hpre, htaken⟩ := removePrefix_spec hP t v p
    rw [← Option.some.inj ha]
    constructor
    · intro v4
      by_cases hv : v = v4
      · rw [← hv, hpre]
        exact antichain_erase (ht.antichain v) _
      · rw [not_ne hv, htaken.other]
        exact ht.antichain _
    · intro v4 a
      show _ ↔ a ∈ if v = v4 ∧ p.bits ∈ prefixes t v then _ else _
      by_cases hv : v = v4
      · subst hv
        by_cases hp : p.bits ∈ prefixes t v
        · rw [if_pos ⟨rfl, hp⟩, hpre, covers_erase (ht.antichain v) hp, ht.covers]
          exact Iff.rfl
        · rw [if_neg fun hh => hp hh.2, hpre, Finset.erase_eq_of_notMem hp]
          exact ht.covers v a
      · rw [if_neg fun hh => hv hh.1, not_ne hv, htaken.other]
        exact ht.covers _ a
  | add op =>
    have ha' : apply t op = some t' := ha
    cases op with
    | text => exact absurd hc id
    | network ipa bits c =>
      have hr := network_result hP h ipa bits c
      rw [ha', show c = true from hc] at hr
      exact tidy_result ht hr
    | domain ipa bits x =>
      have hr := domain_result hP h ipa bits x
      rw [ha'] at hr
      exact tidy_result ht hr
    | address ipa =>
      rcases address_result hP h ipa with ⟨hknown, hs⟩ | ⟨hn, hnew, t1, hs, hone⟩
      · cases hs.symm.trans ha'
        by_cases hn : t.getTree (isV4 ipa) = none
        · exact tidy_noTree ht hn _
        · exact tidy_grow ht hn rfl (ht.antichain _) (covered_iff (hknown.resolve_left hn))
      · cases hs.symm.trans ha'
        refine tidy_grow ht hn hone.other ?_ fun a => ?_
        · rw [hone.prefixes, ← compact_address hk hnew]
          exact antichain_compact (ht.antichain _) hnew
        · rw [hone.prefixes]
          exact covers_insert

/-! ## Runs from an empty tree -/

theorem tidy_init (handleIPv6 : Bool) : Tidy (E := E) (.init handleIPv6) fun _ => ∅ := by
  have hempty : ∀ v, prefixes (E := E) (.init handleIPv6) v = ∅ := by
    intro v
    cases v
    · cases handleIPv6
      · rfl
      · exact E.P.words_new 128
    · exact E.P.words_new 32
  constructor
  · intro v
    rw [hempty]
    exact antichain_empty
  · intro v a
    rw [hempty]
    exact iff_of_false (covers_empty a) (Set.notMem_empty a)

theorem exact_init (handleIPv6 : Bool) : Exact (E := E) (.init handleIPv6) := by
  have hempty : ∀ v, (prefixes (E := E) (.init handleIPv6) v).card = 0 := by
    intro v
    cases v
    · cases handleIPv6
      · rfl
      · exact (congrArg Finset.card (E.P.words_new 128)).trans Finset.card_empty
    · exact (congrArg Finset.card (E.P.words_new 32)).trans Finset.card_empty
  constructor
  · unfold total
    rw [hempty, hempty]
    rfl
  · intro v
    rw [hempty]
    cases v <;> rfl

theorem step_some {s : Sys E} (h : s.tree = some t) (e : Ev) : step s e = ⟨act t e, want t s.wanted e⟩ := by
  unfold step
  rw [h]

/-- With compaction the prefixes are an antichain in every state and cover exactly what is wanted. -/
theorem tidy_run (hP : E.P.Lawful) (handleIPv6 : Bool) {es : List Ev} (hes : ∀ e ∈ es, Compacting e) :
    Always step (fun s => ∀ t, s.tree = some t → Tidy t s.wanted) (start E handleIPv6) es := by
  refine always_of_inv step (fun (s : Sys E) e (h : ∀ t, s.tree = some t → Shaped t ∧ TreeOk t ∧ Tidy t s.wanted) hc => ?_)
    (fun s h t ht => (h t ht).2.2) ?_ (along_of_forall step hes)
  · cases hs : s.tree with
    | none =>
      intro t ht
      have hsame : step s e = s := by
        unfold step
        rw [hs]
      rw [hsame] at ht ⊢
      exact h t ht
    | some t =>
      obtain ⟨hshape, hok, htidy⟩ := h t hs
      rw [step_some hs]
      intro t' ht'
      exact ⟨shaped_act hP hshape e ht', treeOk_act hok ht', tidy_act hP hshape hok htidy hc ht'⟩
  · intro t ht
    cases ht
    exact ⟨shaped_init handleIPv6, init_ok handleIPv6, tidy_init handleIPv6⟩

/-- For every run of additions and removals from an empty tree: the counters are the numbers of distinct
    prefixes and MAC addresses in every state, and with compaction the prefixes are tidy, exactly when every
    call of the run is quiet. -/
theorem law_iff_quiet (hP : E.P.Lawful) (handleIPv6 : Bool) (es : List Ev) :
    Law (start E handleIPv6) es ↔ Along step (fun s e => ∃ t, s.tree = some t ∧ Quiet t e) (start E handleIPv6) es := by
  unfold Law
  rw [and_iff_left fun hes => tidy_run hP handleIPv6 hes]
  refine always_iff_along step
    (fun s e (h : ∃ t, s.tree = some t ∧ Shaped t ∧ Exact t) hok => ?_) (fun s h => ?_) (fun s e h hbad hc => hbad ?_)
    ⟨_, rfl, shaped_init handleIPv6, exact_init handleIPv6⟩
  · obtain ⟨t, ht, hshape, hx⟩ := h
    obtain ⟨t1, ht1, hq⟩ := hok
    cases ht1.symm.trans ht
    obtain ⟨t', ha, hx'⟩ := (exact_act hP hshape hx e).mpr hq
    rw [step_some ht]
    exact ⟨t', ha, shaped_act hP hshape e ha, hx'⟩
  · obtain ⟨t, ht, -, hx⟩ := h
    exact ⟨t, ht, hx⟩
  · obtain ⟨t, ht, hshape, hx⟩ := h
    rw [step_some ht] at hc
    exact ⟨t, ht, (exact_act hP hshape hx e).mp hc⟩

/-! ## Two networks -/

/-- The prefix trees are lists, and no text is an address. -/
def listEnv : Env where
  P := .ofList
  nullOk := true
  inetPton4 _ := none
  inetPton6 _ := none
  inetNtop6 _ := []
  write _ := none
  parse _ := none

/-- 192.168.1.0 -/
def lan : IpAddress := .v4 ⟨byteBits 192 ++ byteBits 168 ++ byteBits 1 ++ byteBits 0, rfl⟩

theorem law_one_address : Law (start listEnv true) [.add (.address lan)] := by
  refine (law_iff_quiet Patricia.ofList_lawful true _).mpr ⟨⟨_, rfl, .inr (.inr ?_)⟩, trivial⟩
  decide

/-- The domains 192.168.1.0/24 and 192.168.0.0/16: the second one removes the first from the counters, which
    it was never added to. -/
theorem compaction_wraps :
    ¬ ∀ (E : Env) (_ : E.P.Lawful) (handleIPv6 : Bool) (es : List Ev), Law (start E handleIPv6) es := by
  intro h
  have hlaw := h listEnv Patricia.ofList_lawful true [.add (.domain lan 24 0), .add (.domain lan 16 1)]
  obtain ⟨t, ht, hx⟩ := always_last _ hlaw.1
  have hnum : (run step (start listEnv true) [.add (.domain lan 24 0), .add (.domain lan 16 1)]).tree.map
      AddressTree.numAddresses = some 0xFFFFFFFF := by decide
  have htotal : (run step (start listEnv true) [.add (.domain lan 24 0), .add (.domain lan 16 1)]).tree.map total =
      some 1 := by decide
  rw [ht] at hnum htotal
  have hall := hx.all
  rw [Option.some.inj hnum, Option.some.inj htotal] at hall
  cases hall

end Ntopng.Addresses.Counts
