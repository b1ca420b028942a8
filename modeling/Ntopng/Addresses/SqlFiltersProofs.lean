/-
  Ntopng.Addresses.SqlFiltersProofs — when the SQL filters of a user are right (src/Utils.cpp).

  Proved (`sqlFilters_iff`): with addresses by their stored forms, the law of the filters holds
  exactly if either the first network of the walk matches all and the networks hold everything, or
  there is a network, none matches all, and what becomes of those that do not end with a byte is
  made up for by the others (`RightNets`). Networks of whole bytes are right
  (`rightNets_of_whole_bytes`). With the families told apart, the networks of both must also hold
  the same of ::/96.
-/

import Mathlib
import Ntopng.Lib.Lex
import Ntopng.Addresses.SqlFilters

namespace Ntopng.Addresses

open Ntopng.Lib.Prefixes Ntopng.Lib.Lex Ntopng.Lib.Cylinders

/-! ## The bounds of a network -/

/-- The `c` high bits of a byte. -/
def highBits (c : Nat) : UInt8 := UInt8.ofNat (256 - 2 ^ (8 - c))

/-- How many bits of byte `j` are among the last `m`. -/
def reached (m j : Nat) : Nat := min 8 (m - 8 * (15 - j))

theorem hostBit_next {m : Nat} (hm : m < 128) : hostBit m = 1 <<< UInt8.ofNat (7 - m % 8) := by
  unfold hostBit
  have hmod : (127 - m) % 8 = 7 - m % 8 := by omega
  rw [hmod]

theorem highBits_succ {c : Nat} (hc : c < 8) :
    highBits c ||| 1 <<< UInt8.ofNat (7 - c) = highBits (c + 1) := by
  revert c
  decide

theorem reached_succ {m j : Nat} (hm : m < 128) (hj : j < 16) :
    if (127 - m) / 8 = j then reached m j = m % 8 ∧ reached (m + 1) j = m % 8 + 1 else
      reached (m + 1) j = reached m j := by
  unfold reached
  split <;> omega

theorem raise_step (addr : In6Addr) (m j : Nat) (hm : m ≤ 128) (hj : j < 16) :
    ((List.range m).foldl (fun a i => a.modify ((127 - i) / 8) (· ||| hostBit i)) addr)[j]? =
      addr[j]?.map (· ||| highBits (reached m j)) := by
  induction m with
  | zero =>
    have h0 : highBits (reached 0 j) = 0 := by
      unfold reached
      rw [Nat.zero_sub, Nat.min_zero]
      rfl
    cases h : addr[j]? with
    | none => simp [h]
    | some v => simp [h, h0]
  | succ m ih =>
    have hm' : m < 128 := by omega
    rw [List.range_succ, List.foldl_append, List.foldl_cons, List.foldl_nil, List.getElem?_modify, ih (by omega)]
    have hnext := reached_succ hm' hj
    cases addr[j]? with
    | none => rfl
    | some v =>
      by_cases hjm : (127 - m) / 8 = j
      · rw [if_pos hjm] at hnext
        rw [hnext.1, hnext.2, hostBit_next hm']
        simp only [Option.map_some, Option.map_eq_map, if_pos hjm, UInt8.or_assoc]
        rw [highBits_succ (Nat.mod_lt _ (by decide))]
      · rw [if_neg hjm] at hnext
        rw [hnext]
        simp only [Option.map_some, Option.map_eq_map, if_neg hjm]

theorem clear_step (addr : In6Addr) (m j : Nat) (hm : m ≤ 128) (hj : j < 16) :
    ((List.range m).foldl (fun a i => a.modify ((127 - i) / 8) (· &&& ~~~hostBit i)) addr)[j]? =
      addr[j]?.map (· &&& ~~~highBits (reached m j)) := by
  induction m with
  | zero =>
    have h0 : highBits (reached 0 j) = 0 := by
      unfold reached
      rw [Nat.zero_sub, Nat.min_zero]
      rfl
    cases h : addr[j]? with
    | none => simp [h]
    | some v => simp [h, h0]
  | succ m ih =>
    have hm' : m < 128 := by omega
    rw [List.range_succ, List.foldl_append, List.foldl_cons, List.foldl_nil, List.getElem?_modify, ih (by omega)]
    have hnext := reached_succ hm' hj
    cases addr[j]? with
    | none => rfl
    | some v =>
      by_cases hjm : (127 - m) / 8 = j
      · rw [if_pos hjm] at hnext
        rw [hnext.1, hnext.2, hostBit_next hm']
        simp only [Option.map_some, Option.map_eq_map, if_pos hjm, UInt8.and_assoc]
        have hnot : ∀ a b : UInt8, ~~~a &&& ~~~b = ~~~(a ||| b) := by
          intro a b
          apply UInt8.toBitVec_inj.mp
          exact (BitVec.not_or ..).symm
        rw [hnot, highBits_succ (Nat.mod_lt _ (by decide))]
      · rw [if_neg hjm] at hnext
        rw [hnext]
        simp only [Option.map_some, Option.map_eq_map, if_neg hjm]

theorem length_foldl_modify (f : Nat → UInt8 → UInt8) (g : Nat → Nat) (l : List Nat) (addr : In6Addr) :
    (l.foldl (fun a i => a.modify (g i) (f i)) addr).length = addr.length := by
  induction l generalizing addr with
  | nil => rfl
  | cons i l ih => rw [List.foldl_cons, ih, List.length_modify]

theorem length_raise (bitlen : Nat) (addr : In6Addr) : (raise bitlen addr).length = addr.length :=
  length_foldl_modify (fun i => (· ||| hostBit i)) (fun i => (127 - i) / 8) _ addr

theorem length_clear (bitlen : Nat) (addr : In6Addr) : (clear bitlen addr).length = addr.length :=
  length_foldl_modify (fun i => (· &&& ~~~hostBit i)) (fun i => (127 - i) / 8) _ addr

/-- Bytes of which the whole ones are kept, one is changed in part, and the rest is `e`. -/
theorem bytes_shape {f : UInt8 → UInt8 → UInt8} {e : UInt8} (hnone : ∀ v, f v 0 = v) (hall : ∀ v, f v 255 = e)
    {addr r : In6Addr} {bitlen : Nat} (hbitlen : bitlen < 128) (hlen : addr.length = 16) (hr : r.length = addr.length)
    (h : ∀ j, j < 16 → r[j]? = addr[j]?.map (f · (highBits (reached (128 - bitlen) j)))) :
    r = addr.take (bitlen / 8) ++ f (addr.getD (bitlen / 8) 0) (highBits (8 - bitlen % 8)) ::
      List.replicate (15 - bitlen / 8) e := by
  have htake : (addr.take (bitlen / 8)).length = bitlen / 8 := by
    rw [List.length_take]
    omega
  apply List.ext_getElem?
  intro j
  by_cases hj : j < 16
  · rw [h j hj]
    have hget : addr[j]? = some (addr.getD j 0) := by
      rw [List.getD_eq_getElem?_getD, List.getElem?_eq_getElem (by omega)]
      rfl
    rw [hget, Option.map_some]
    rcases lt_trichotomy j (bitlen / 8) with hlt | heq | hgt
    · have hc : reached (128 - bitlen) j = 0 := by
        unfold reached
        omega
      have h0 : highBits 0 = 0 := by decide
      rw [hc, h0, hnone, List.getElem?_append_left (by omega), List.getElem?_take_of_lt hlt, hget]
    · subst heq
      have hc : reached (128 - bitlen) (bitlen / 8) = 8 - bitlen % 8 := by
        unfold reached
        omega
      rw [hc, List.getElem?_append_right (by omega), htake, Nat.sub_self]
      rfl
    · have hc : reached (128 - bitlen) j = 8 := by
        unfold reached
        omega
      have h8 : highBits 8 = 255 := by decide
      obtain ⟨d, hd⟩ : ∃ d, j - bitlen / 8 = d + 1 := ⟨j - bitlen / 8 - 1, by omega⟩
      rw [hc, h8, hall, List.getElem?_append_right (by omega), htake, hd, List.getElem?_cons_succ,
        List.getElem?_replicate, if_pos (by omega)]
  · have hrlen : r.length ≤ j := by omega
    rw [List.getElem?_eq_none hrlen, List.getElem?_eq_none]
    rw [List.length_append, htake, List.length_cons, List.length_replicate]
    omega

theorem raise_shape {addr : In6Addr} {bitlen : Nat} (hbitlen : bitlen < 128) (hlen : addr.length = 16) :
    raise bitlen addr = addr.take (bitlen / 8) ++ (addr.getD (bitlen / 8) 0 ||| highBits (8 - bitlen % 8)) ::
      List.replicate (15 - bitlen / 8) 255 := by
  apply bytes_shape (f := fun v m => v ||| m) ?_ ?_ hbitlen hlen (length_raise bitlen addr)
  · exact fun j hj => raise_step addr (128 - bitlen) j (by omega) hj
  · exact fun v => UInt8.or_zero
  · intro v
    apply UInt8.toBitVec_inj.mp
    exact BitVec.or_allOnes

theorem clear_shape {addr : In6Addr} {bitlen : Nat} (hbitlen : bitlen < 128) (hlen : addr.length = 16) :
    clear bitlen addr = addr.take (bitlen / 8) ++ (addr.getD (bitlen / 8) 0 &&& ~~~highBits (8 - bitlen % 8)) ::
      List.replicate (15 - bitlen / 8) 0 := by
  apply bytes_shape (f := fun v m => v &&& ~~~m) ?_ ?_ hbitlen hlen (length_clear bitlen addr)
  · exact fun j hj => clear_step addr (128 - bitlen) j (by omega) hj
  · intro v
    apply UInt8.toBitVec_inj.mp
    exact BitVec.and_allOnes
  · exact fun v => UInt8.and_zero

/-- The high bits of a byte cleared and set, with `k` low bits kept. -/
theorem low_high (v : UInt8) {k : Nat} (hk : k < 8) :
    (v &&& ~~~highBits (8 - k)).toNat = v.toNat % 2 ^ k ∧
      (v ||| highBits (8 - k)).toNat = v.toNat % 2 ^ k + (256 - 2 ^ k) := by
  have hall : ∀ k : Fin 8, ∀ v : BitVec 8,
      (v &&& ~~~(highBits (8 - k)).toBitVec).toNat = v.toNat % 2 ^ k.val ∧
        (v ||| (highBits (8 - k)).toBitVec).toNat = v.toNat % 2 ^ k.val + (256 - 2 ^ k.val) := by
    decide
  exact hall ⟨k, hk⟩ v.toBitVec

theorem uint8_bot (a : UInt8) : 0 < a ∨ 0 = a := by
  rcases Nat.eq_zero_or_pos a.toNat with h | h
  · exact Or.inr (UInt8.toNat_inj.mp h.symm)
  · exact Or.inl (UInt8.lt_iff_toNat_lt.mpr h)

theorem uint8_top (a : UInt8) : a < 255 ∨ a = 255 := by
  have hlt : a.toNat < 256 := a.toNat_lt
  rcases Nat.lt_or_ge a.toNat 255 with h | h
  · exact Or.inl (UInt8.lt_iff_toNat_lt.mpr h)
  · exact Or.inr (UInt8.toNat_inj.mp (Nat.le_antisymm (Nat.le_of_lt_succ hlt) h))

theorem uint8_le (a b : UInt8) : (a < b ∨ a = b) ↔ a.toNat ≤ b.toNat := by
  rw [UInt8.lt_iff_toNat_lt, ← UInt8.toNat_inj]
  omega

/-- The whole bytes of the network are those of the address; of a byte with `k` network bits the value is at least
    that of the network's low `k` bits, and at most this with the other bits set. -/
def Reaches (p : Prefix Family) (addr : In6Addr) : Prop :=
  let whole := netBitlen p / 8
  let k := netBitlen p % 8
  let low := ((netAddr p).getD whole 0).toNat % 2 ^ k
  addr.take whole = (netAddr p).take whole ∧
    (k = 0 ∨ low ≤ (addr.getD whole 0).toNat ∧ (addr.getD whole 0).toNat ≤ low + (256 - 2 ^ k))

/-- The bounds of a network hold what it reaches. -/
theorem between_iff {p : Prefix Family} (hbitlen : netBitlen p ≤ 128) (hnet : (netAddr p).length = 16) {addr : In6Addr}
    (haddr : addr.length = 16) :
    (clear (netBitlen p) (netAddr p) ≤ addr ∧ addr ≤ raise (netBitlen p) (netAddr p)) ↔ Reaches p addr := by
  unfold Reaches
  dsimp only
  generalize netBitlen p = bitlen at hbitlen ⊢
  generalize netAddr p = net at hnet ⊢
  rcases Nat.lt_or_ge bitlen 128 with hlt | hge
  · have hk : bitlen % 8 < 8 := Nat.mod_lt _ (by decide)
    have htake : (net.take (bitlen / 8)).length = bitlen / 8 := by
      rw [List.length_take]
      omega
    have hdrop : addr.drop (net.take (bitlen / 8)).length =
        addr.getD (bitlen / 8) 0 :: addr.drop (bitlen / 8 + 1) := by
      rw [htake, List.getD_eq_getElem?_getD, List.getElem?_eq_getElem (by omega)]
      exact List.drop_eq_getElem_cons (by omega)
    have hrest : (addr.drop (bitlen / 8 + 1)).length = 15 - bitlen / 8 := by
      rw [List.length_drop]
      omega
    have hb := between_of_prefix uint8_bot uint8_top (net.getD (bitlen / 8) 0 &&& ~~~highBits (8 - bitlen % 8))
      (net.getD (bitlen / 8) 0 ||| highBits (8 - bitlen % 8)) hdrop (by omega)
    rw [hrest, ← raise_shape hlt hnet, ← clear_shape hlt hnet, htake, uint8_le, uint8_le, (low_high _ hk).1,
      (low_high _ hk).2] at hb
    rw [hb]
    apply and_congr Iff.rfl
    constructor
    · exact Or.inr
    · rintro (h0 | h)
      · have hv : (addr.getD (bitlen / 8) 0).toNat < 256 := UInt8.toNat_lt _
        rw [h0, pow_zero, Nat.mod_one]
        omega
      · exact h
  · have heq : bitlen = 128 := by omega
    subst heq
    have hclear : clear 128 net = net := rfl
    have hraise : raise 128 net = net := rfl
    rw [hclear, hraise, List.take_of_length_le (by omega), List.take_of_length_le (by omega)]
    constructor
    · rintro ⟨h1, h2⟩
      exact ⟨List.le_antisymm h2 h1, Or.inl rfl⟩
    · rintro ⟨h, -⟩
      rw [h]
      exact ⟨List.le_refl _, List.le_refl _⟩

/-! ## The walk -/

variable {E : Env}

/-- The prefixes of both families. -/
structure NetOk (p : Prefix Family) : Prop where
  bitlen : netBitlen p ≤ 128
  addr : (netAddr p).length = 16

theorem length_bytes (bits : List Bool) : (bytes bits).length = bits.length / 8 := by
  unfold bytes
  rw [List.length_map, List.length_range]

theorem length_dbForm (ipa : IpAddress) : (dbForm ipa).length = 16 := by
  cases ipa with
  | v4 a =>
    have hform : dbForm (.v4 a) = List.replicate 12 0 ++ bytes a.val := rfl
    have h : (dbForm (.v4 a)).length = 12 + a.val.length / 8 := by
      rw [hform, List.length_append, List.length_replicate, length_bytes]
    rw [h, a.property]
  | v6 a =>
    have h : (dbForm (.v6 a)).length = a.val.length / 8 := length_bytes a.val
    rw [h, a.property]

theorem netOk_inet {p : Prefix Family} (hf : p.family = .inet) (hlen : p.add.length = 32) : NetOk p := by
  have hfits := p.fits
  constructor
  · unfold netBitlen
    rw [if_pos hf]
    omega
  · unfold netAddr
    rw [if_pos hf, List.length_append, List.length_replicate, length_bytes, hlen]

theorem netOk_inet6 {p : Prefix Family} (hf : p.family = .inet6) (hlen : p.add.length = 128) : NetOk p := by
  have hfits := p.fits
  have hno : p.family ≠ .inet := by
    rw [hf]
    decide
  constructor
  · unfold netBitlen
    rw [if_neg hno]
    omega
  · unfold netAddr
    rw [if_neg hno, length_bytes, hlen]

theorem mem_walk {t : AddressTree E} {n : Node Family} :
    n ∈ t.walk ↔ (∃ q, t.ptreeV4 = some q ∧ n ∈ q.nodes) ∨ (∃ q, t.ptreeV6 = some q ∧ n ∈ q.nodes) := by
  unfold AddressTree.walk
  rw [List.mem_append]
  apply or_congr
  · cases t.ptreeV4 <;> simp
  · cases t.ptreeV6 <;> simp

theorem AllowedNets.netOk (a : AllowedNets E) {n : Node Family} (h : n ∈ a.tree.walk) : NetOk n.key := by
  rcases mem_walk.mp h with ⟨q, hq, hn⟩ | ⟨q, hq, hn⟩
  · rw [a.ptreeV4] at hq
    rw [← Option.some.inj hq] at hn
    obtain ⟨hf, hlen⟩ := a.nodesV4 n hn
    exact netOk_inet hf hlen
  · obtain ⟨hf, hlen⟩ := (a.v6 q hq).2 n hn
    exact netOk_inet6 hf hlen

/-- What the conditions of a network admit. -/
def netHosts (p : Prefix Family) : Cond :=
  between .ip (clear (netBitlen p) (netAddr p)) (raise (netBitlen p) (netAddr p))

def netFlows (p : Prefix Family) : Cond :=
  .or (between .cliIp (clear (netBitlen p) (netAddr p)) (raise (netBitlen p) (netAddr p)))
    (between .srvIp (clear (netBitlen p) (netAddr p)) (raise (netBitlen p) (netAddr p)))

theorem between_eval {p : Prefix Family} (h : NetOk p) (column : Column) {row : Row}
    (hrow : (row column).length = 16) :
    (between column (clear (netBitlen p) (netAddr p)) (raise (netBitlen p) (netAddr p))).eval row = true ↔
      Reaches p (row column) := by
  rw [← between_iff h.bitlen h.addr hrow]
  unfold between Cond.eval
  rw [Bool.and_eq_true]
  unfold Cond.eval
  rw [decide_eq_true_iff, decide_eq_true_iff]

theorem netHosts_eval {p : Prefix Family} (h : NetOk p) (ipa : IpAddress) :
    (netHosts p).eval (hostRow ipa) = true ↔ Reaches p (dbForm ipa) :=
  between_eval h .ip (length_dbForm ipa)

theorem netFlows_eval {p : Prefix Family} (h : NetOk p) (cli srv : IpAddress) :
    (netFlows p).eval (flowRow cli srv) = true ↔ Reaches p (dbForm cli) ∨ Reaches p (dbForm srv) := by
  unfold netFlows Cond.eval
  rw [Bool.or_eq_true]
  exact or_congr (between_eval h .cliIp (length_dbForm cli)) (between_eval h .srvIp (length_dbForm srv))

theorem walker_net (h f : Filter) (leaked : List Cond) {n : Node Family} (hn : n.key.bitlen ≠ 0) :
    allowedNetsWalker ⟨false, h, f, leaked⟩ n =
      ⟨false, h.append (netHosts n.key), f.append (netFlows n.key), leaked⟩ := by
  unfold allowedNetsWalker
  dsimp only
  rw [if_neg Bool.false_ne_true, if_neg hn]
  rfl

/-- What a filter admits, none at all if there is no text. -/
def Filter.holds (row : Row) : Filter → Bool
  | .text c => c.eval row
  | _ => false

theorem append_holds (row : Row) (c : Cond) (f : Filter) :
    (f.append c).holds row = (f.holds row || c.eval row) ∧ f.append c ≠ .null ∧ f.append c ≠ .freed := by
  cases f with
  | null => exact ⟨rfl, (fun h => by cases h), (fun h => by cases h)⟩
  | freed => exact ⟨rfl, (fun h => by cases h), (fun h => by cases h)⟩
  | text d => exact ⟨rfl, (fun h => by cases h), (fun h => by cases h)⟩

/-- A walk along networks that do not match all. -/
theorem walk_nets {l : List (Node Family)} (hl : ∀ n ∈ l, n.key.bitlen ≠ 0) (h f : Filter) (leaked : List Cond) :
    ∃ h' f', l.foldl allowedNetsWalker ⟨false, h, f, leaked⟩ = ⟨false, h', f', leaked⟩ ∧
      (∀ row, h'.holds row = (h.holds row || l.any fun n => (netHosts n.key).eval row)) ∧
      (∀ row, f'.holds row = (f.holds row || l.any fun n => (netFlows n.key).eval row)) ∧
      (l = [] → h' = h ∧ f' = f) ∧ (l ≠ [] → (h' ≠ .null ∧ h' ≠ .freed) ∧ f' ≠ .null ∧ f' ≠ .freed) := by
  induction l generalizing h f with
  | nil =>
    refine ⟨h, f, rfl, ?_, ?_, fun _ => ⟨rfl, rfl⟩, fun hne => absurd rfl hne⟩
    · exact fun row => (Bool.or_false _).symm
    · exact fun row => (Bool.or_false _).symm
  | cons n l ih =>
    have hn : n.key.bitlen ≠ 0 := hl n (List.mem_cons_self ..)
    obtain ⟨h', f', heq, hh, hf, hnil, hcons⟩ :=
      ih (fun m hm => hl m (List.mem_cons_of_mem _ hm)) (h.append (netHosts n.key)) (f.append (netFlows n.key))
    refine ⟨h', f', ?_, ?_, ?_, (fun hne => by cases hne), fun _ => ?_⟩
    · rw [List.foldl_cons, walker_net h f leaked hn, heq]
    · intro row
      rw [hh row, (append_holds row (netHosts n.key) h).1, List.any_cons, Bool.or_assoc]
    · intro row
      rw [hf row, (append_holds row (netFlows n.key) f).1, List.any_cons, Bool.or_assoc]
    · by_cases hl' : l = []
      · obtain ⟨rfl, rfl⟩ := hnil hl'
        exact ⟨(append_holds (fun _ => []) (netHosts n.key) h).2, (append_holds (fun _ => []) (netFlows n.key) f).2⟩
      · exact hcons hl'

theorem walk_matched (l : List (Node Family)) {data : SqliteFilterData} (h : data.matchAll = true) :
    l.foldl allowedNetsWalker data = data := by
  induction l with
  | nil => rfl
  | cons n l ih =>
    have hsame : allowedNetsWalker data n = data := by
      unfold allowedNetsWalker
      rw [if_pos h]
    rw [List.foldl_cons, hsame, ih]

theorem admits_holds {f : Filter} (h : f ≠ .null ∧ f ≠ .freed) (row : Row) : f.admits row = some (f.holds row) := by
  cases f with
  | null => exact absurd rfl h.1
  | freed => exact absurd rfl h.2
  | text c => rfl

/-- A network that matches all ends the walk; filters made before it do not end well. -/
theorem walker_matchAll {h f : Filter} (leaked : List Cond) {n : Node Family} (hn : n.key.bitlen = 0) :
    (allowedNetsWalker ⟨false, h, f, leaked⟩ n).matchAll = true ∧
      (h = .null → f = .null → allowedNetsWalker ⟨false, h, f, leaked⟩ n = ⟨true, .null, .null, leaked⟩) ∧
      (h ≠ .null → (allowedNetsWalker ⟨false, h, f, leaked⟩ n).hostsFilter = .freed) := by
  unfold allowedNetsWalker
  dsimp only
  rw [if_neg Bool.false_ne_true, if_pos hn]
  cases h <;> cases f <;> simp

theorem split_at_matchAll {l : List (Node Family)} (h : ∃ n ∈ l, n.key.bitlen = 0) :
    ∃ pre n post, l = pre ++ n :: post ∧ (∀ m ∈ pre, m.key.bitlen ≠ 0) ∧ n.key.bitlen = 0 := by
  induction l with
  | nil =>
    obtain ⟨n, hn, -⟩ := h
    cases hn
  | cons m l ih =>
    by_cases hm : m.key.bitlen = 0
    · exact ⟨[], m, l, rfl, (fun x hx => by cases hx), hm⟩
    · have hl : ∃ n ∈ l, n.key.bitlen = 0 := by
        obtain ⟨n, hn, h0⟩ := h
        rcases List.mem_cons.mp hn with rfl | hn
        · exact absurd h0 hm
        · exact ⟨n, hn, h0⟩
      obtain ⟨pre, n, post, rfl, hpre, h0⟩ := ih hl
      refine ⟨m :: pre, n, post, rfl, ?_, h0⟩
      intro x hx
      rcases List.mem_cons.mp hx with rfl | hx
      · exact hm
      · exact hpre x hx

/-! ## Bits and bytes -/

theorem bitsNat_snoc (l : List Bool) (b : Bool) : bitsNat (l ++ [b]) = 2 * bitsNat l + b.toNat := by
  unfold bitsNat
  rw [List.foldl_append]
  rfl

theorem bitsNat_lt (l : List Bool) : bitsNat l < 2 ^ l.length := by
  induction l using List.reverseRecOn with
  | nil => decide
  | append_singleton l b ih =>
    rw [bitsNat_snoc, List.length_append, List.length_singleton, pow_succ]
    have hb := Bool.toNat_le b
    omega

theorem bitsNat_inj {l l' : List Bool} (hlen : l.length = l'.length) (h : bitsNat l = bitsNat l') : l = l' := by
  induction l using List.reverseRecOn generalizing l' with
  | nil => exact (List.length_eq_zero_iff.mp hlen.symm).symm
  | append_singleton l b ih =>
    rcases List.eq_nil_or_concat l' with rfl | ⟨m, c, rfl⟩
    · rw [List.length_append, List.length_singleton] at hlen
      cases hlen
    · rw [List.concat_eq_append] at h hlen ⊢
      rw [bitsNat_snoc, bitsNat_snoc] at h
      rw [List.length_append, List.length_append, List.length_singleton, List.length_singleton] at hlen
      have hb := Bool.toNat_le b
      have hc := Bool.toNat_le c
      have hbc : b.toNat = c.toNat := by omega
      have hlm : bitsNat l = bitsNat m := by omega
      have hlast : b = c := by
        cases b <;> cases c <;> first | rfl | cases hbc
      rw [ih (by omega) hlm, hlast]

def chunk (l : List Bool) (j : Nat) : List Bool := (l.drop (8 * j)).take 8

theorem bytes_getElem? (l : List Bool) {j : Nat} (hj : j < l.length / 8) :
    (bytes l)[j]? = some (UInt8.ofNat (bitsNat (chunk l j))) := by
  unfold bytes
  rw [List.getElem?_map, List.getElem?_range hj]
  rfl

theorem length_chunk {l : List Bool} {j : Nat} (hj : j < l.length / 8) : (chunk l j).length = 8 := by
  unfold chunk
  rw [List.length_take, List.length_drop]
  omega

theorem chunk_inj {l l' : List Bool} {j : Nat} (hj : j < l.length / 8) (hj' : j < l'.length / 8)
    (h : UInt8.ofNat (bitsNat (chunk l j)) = UInt8.ofNat (bitsNat (chunk l' j))) : chunk l j = chunk l' j := by
  have hlt := bitsNat_lt (chunk l j)
  have hlt' := bitsNat_lt (chunk l' j)
  rw [length_chunk hj] at hlt
  rw [length_chunk hj'] at hlt'
  apply bitsNat_inj ((length_chunk hj).trans (length_chunk hj').symm)
  have hnat := congrArg UInt8.toNat h
  rw [UInt8.toNat_ofNat', UInt8.toNat_ofNat', Nat.mod_eq_of_lt hlt, Nat.mod_eq_of_lt hlt'] at hnat
  exact hnat

/-- Whole bytes agree exactly if their bits do. -/
theorem bytes_take_iff {l l' : List Bool} (hlen : l.length = l'.length) {m : Nat} (hm : m ≤ l.length / 8) :
    (bytes l).take m = (bytes l').take m ↔ l.take (8 * m) = l'.take (8 * m) := by
  induction m with
  | zero => simp
  | succ m ih =>
    have hj : m < l.length / 8 := hm
    have hj' : m < l'.length / 8 := by omega
    have hbytes : ∀ k : List Bool, m < k.length / 8 →
        (bytes k).take (m + 1) = (bytes k).take m ++ [UInt8.ofNat (bitsNat (chunk k m))] := by
      intro k hk
      rw [List.take_add_one, bytes_getElem? k hk]
      rfl
    have hbits : ∀ k : List Bool, k.take (8 * (m + 1)) = k.take (8 * m) ++ chunk k m := by
      intro k
      rw [Nat.mul_add, Nat.mul_one, List.take_add]
      rfl
    rw [hbytes l hj, hbytes l' hj', hbits, hbits]
    have hlt : ∀ k : List Bool, m < k.length / 8 → ((bytes k).take m).length = m := by
      intro k hk
      rw [List.length_take, length_bytes]
      omega
    have hltb : ∀ k : List Bool, m < k.length / 8 → (k.take (8 * m)).length = 8 * m := by
      intro k hk
      rw [List.length_take]
      omega
    constructor
    · intro h
      obtain ⟨hinit, hlast⟩ := List.append_inj h ((hlt l hj).trans (hlt l' hj').symm)
      rw [(ih (by omega)).mp hinit, chunk_inj hj hj' (List.cons.inj hlast).1]
    · intro h
      obtain ⟨hinit, hlast⟩ := List.append_inj h ((hltb l hj).trans (hltb l' hj').symm)
      rw [(ih (by omega)).mpr hinit, hlast]

theorem bitsNat_append (l l' : List Bool) : bitsNat (l ++ l') = bitsNat l * 2 ^ l'.length + bitsNat l' := by
  induction l' using List.reverseRecOn with
  | nil => rw [List.append_nil, List.length_nil, pow_zero, Nat.mul_one]; rfl
  | append_singleton l' b ih =>
    rw [← List.append_assoc, bitsNat_snoc, bitsNat_snoc, ih, List.length_append, List.length_singleton, pow_succ]
    ring

/-- The first bits are the high ones. -/
theorem bitsNat_take (l : List Bool) (k : Nat) : bitsNat (l.take k) = bitsNat l / 2 ^ (l.length - k) := by
  have hsplit := bitsNat_append (l.take k) (l.drop k)
  have hlt := bitsNat_lt (l.drop k)
  rw [List.take_append_drop, List.length_drop] at hsplit
  rw [List.length_drop] at hlt
  rw [hsplit, Nat.mul_comm, Nat.mul_add_div (Nat.two_pow_pos _), Nat.div_eq_of_lt hlt, Nat.add_zero]

theorem getD_bytes (l : List Bool) {j : Nat} (hj : j < l.length / 8) :
    ((bytes l).getD j 0).toNat = bitsNat (chunk l j) := by
  have hlt := bitsNat_lt (chunk l j)
  rw [length_chunk hj] at hlt
  rw [List.getD_eq_getElem?_getD, bytes_getElem? l hj, Option.getD_some, UInt8.toNat_ofNat', Nat.mod_eq_of_lt hlt]

/-- The first bits agree exactly if the whole bytes do, and of the next one the high bits. -/
theorem take_bits_iff {l l' : List Bool} (hlen : l.length = l'.length) (h8 : 8 ∣ l.length) {m : Nat} (hm : m ≤ l.length) :
    l.take m = l'.take m ↔ (bytes l).take (m / 8) = (bytes l').take (m / 8) ∧
      (m % 8 = 0 ∨ ((bytes l).getD (m / 8) 0).toNat / 2 ^ (8 - m % 8) = ((bytes l').getD (m / 8) 0).toNat / 2 ^ (8 - m % 8)) := by
  have hsplit : ∀ k : List Bool, k.take m = k.take (8 * (m / 8)) ++ (chunk k (m / 8)).take (m % 8) := by
    intro k
    have htake := @List.take_add _ k (8 * (m / 8)) (m % 8)
    rw [Nat.div_add_mod] at htake
    rw [htake, chunk, List.take_take, Nat.min_eq_left (Nat.le_of_lt (Nat.mod_lt _ (by decide)))]
  have hwhole := @bytes_take_iff l l' hlen (m / 8) (Nat.div_le_div_right hm)
  have hlength : ∀ k : List Bool, k.length = l.length → (k.take (8 * (m / 8))).length = 8 * (m / 8) := by
    intro k hk
    rw [List.length_take, hk]
    omega
  rw [hsplit l, hsplit l', hwhole]
  by_cases h0 : m % 8 = 0
  · simp [h0]
  · have hj : m / 8 < l.length / 8 := by omega
    have hj' : m / 8 < l'.length / 8 := by omega
    have hbits : (chunk l (m / 8)).take (m % 8) = (chunk l' (m / 8)).take (m % 8) ↔
        bitsNat (chunk l (m / 8)) / 2 ^ (8 - m % 8) = bitsNat (chunk l' (m / 8)) / 2 ^ (8 - m % 8) := by
      have htake := bitsNat_take (chunk l (m / 8)) (m % 8)
      have htake' := bitsNat_take (chunk l' (m / 8)) (m % 8)
      rw [length_chunk hj] at htake
      rw [length_chunk hj'] at htake'
      rw [← htake, ← htake']
      constructor
      · exact fun h => by rw [h]
      · refine bitsNat_inj ?_
        rw [List.length_take, List.length_take, length_chunk hj, length_chunk hj']
    rw [getD_bytes l hj, getD_bytes l' hj', ← hbits, or_iff_right h0]
    constructor
    · exact fun h => List.append_inj h ((hlength l rfl).trans (hlength l' hlen.symm).symm)
    · exact fun h => by rw [h.1, h.2]

/-- The bits of bytes. -/
def bitsOf (s : In6Addr) : List Bool := s.flatMap fun v => byteBits v.toNat

theorem length_byteBits (b : Nat) : (byteBits b).length = 8 := by
  rw [byteBits, List.length_map, List.length_range]

theorem length_bitsOf (s : In6Addr) : (bitsOf s).length = 8 * s.length := by
  rw [bitsOf, List.length_flatMap]
  simp only [length_byteBits, List.map_const', List.sum_replicate, smul_eq_mul]
  exact Nat.mul_comm _ _

theorem bitsNat_byteBits (v : UInt8) : UInt8.ofNat (bitsNat (byteBits v.toNat)) = v :=
  Lib.CString.forall_byte (P := fun v => UInt8.ofNat (bitsNat (byteBits v.toNat)) = v) (by decide) v

theorem bytes_bitsOf (s : In6Addr) : bytes (bitsOf s) = s := by
  refine List.ext_getElem? fun j => ?_
  by_cases hj : j < s.length
  · have hchunk : chunk (bitsOf s) j = byteBits (s.getD j 0).toNat := by
      have hdrop : (bitsOf s).drop (8 * j) = bitsOf (s.drop j) := by
        have hsplit : bitsOf s = bitsOf (s.take j) ++ bitsOf (s.drop j) := by
          rw [bitsOf, bitsOf, bitsOf, ← List.flatMap_append, List.take_append_drop]
        have hlen : 8 * j = (bitsOf (s.take j)).length := by
          rw [length_bitsOf, List.length_take, Nat.min_eq_left (Nat.le_of_lt hj)]
        rw [hsplit, hlen, List.drop_left]
      have hget : s.getD j 0 = s[j] := by
        rw [List.getD_eq_getElem?_getD, List.getElem?_eq_getElem hj, Option.getD_some]
      rw [chunk, hdrop, List.drop_eq_getElem_cons hj, bitsOf, List.flatMap_cons, hget]
      exact List.take_left' (length_byteBits _)
    rw [bytes_getElem? _ (by rw [length_bitsOf]; omega), hchunk, bitsNat_byteBits, List.getD_eq_getElem?_getD,
      List.getElem?_eq_getElem hj, Option.getD_some]
  · rw [List.getElem?_eq_none (by rw [length_bytes, length_bitsOf]; omega), List.getElem?_eq_none (by omega)]

/-! ## What a network holds -/

theorem length_wholeBytes {p : Prefix Family} (h : NetOk p) : (wholeBytes p).length = netBitlen p / 8 := by
  have hbitlen := h.bitlen
  rw [wholeBytes, List.length_take, h.addr]
  omega

theorem in_behind {p : Prefix Family} (h : NetOk p) (ok : Nat → Bool) {x : In6Addr} (hx : x.length = 16) :
    In (behind p ok) x ↔ x.take (netBitlen p / 8) = wholeBytes p ∧
      (netBitlen p % 8 = 0 ∨ ok (x.getD (netBitlen p / 8) 0).toNat = true) := by
  have hlen := length_wholeBytes h
  have hbitlen := h.bitlen
  rw [behind]
  split
  · rename_i h0
    simp only [In, List.mem_singleton, exists_eq_left, h0, true_or, and_true]
    rw [List.prefix_iff_eq_take, hlen]
    exact eq_comm
  · rename_i h0
    rw [or_iff_right h0]
    constructor
    · rintro ⟨c, hc, r, rfl⟩
      obtain ⟨b, hb, rfl⟩ := List.mem_map.mp hc
      obtain ⟨hlt, hok⟩ := List.mem_filter.mp hb
      have hbyte : (UInt8.ofNat b).toNat = b := by
        rw [UInt8.toNat_ofNat', Nat.mod_eq_of_lt (List.mem_range.mp hlt)]
      rw [List.append_assoc, ← hlen, List.take_left, List.getD_eq_getElem?_getD, List.getElem?_append_right (Nat.le_refl _),
        Nat.sub_self]
      refine ⟨rfl, ?_⟩
      show ok (UInt8.ofNat b).toNat = true
      rwa [hbyte]
    · rintro ⟨htake, hok⟩
      have hlt : netBitlen p / 8 < x.length := by omega
      have hget : x.getD (netBitlen p / 8) 0 = x[netBitlen p / 8] := by
        rw [List.getD_eq_getElem?_getD, List.getElem?_eq_getElem hlt, Option.getD_some]
      refine ⟨wholeBytes p ++ [x[netBitlen p / 8]], List.mem_map.mpr ⟨x[netBitlen p / 8].toNat, ?_, ?_⟩,
        x.drop (netBitlen p / 8 + 1), ?_⟩
      · rw [List.mem_filter, List.mem_range, ← hget]
        exact ⟨UInt8.toNat_lt _, hok⟩
      · rw [UInt8.ofNat_toNat]
      · rw [List.append_assoc, List.singleton_append, ← htake, ← List.drop_eq_getElem_cons hlt, List.take_append_drop]

theorem in_spanned {p : Prefix Family} (h : NetOk p) {x : In6Addr} (hx : x.length = 16) :
    In (spanned p) x ↔ Reaches p x := by
  rw [spanned, in_behind h _ hx, Reaches]
  simp only [decide_eq_true_eq]
  rfl

theorem in_held {p : Prefix Family} (h : NetOk p) {x : In6Addr} (hx : x.length = 16) :
    In (held p) x ↔ x.take (netBitlen p / 8) = wholeBytes p ∧ (netBitlen p % 8 = 0 ∨
      (x.getD (netBitlen p / 8) 0).toNat / 2 ^ (8 - netBitlen p % 8) = lastByte p / 2 ^ (8 - netBitlen p % 8)) := by
  rw [held, in_behind h _ hx]
  simp only [decide_eq_true_eq]

theorem length_behind {p : Prefix Family} (h : NetOk p) (ok : Nat → Bool) : ∀ c ∈ behind p ok, c.length ≤ 16 := by
  intro c hc
  have hlen := length_wholeBytes h
  have hbitlen := h.bitlen
  rw [behind] at hc
  split at hc
  · rw [List.mem_singleton.mp hc]
    omega
  · obtain ⟨b, -, rfl⟩ := List.mem_map.mp hc
    rw [List.length_append, List.length_singleton]
    omega

/-- A network holds the stored forms of the addresses of its family that it covers. -/
theorem held_covers {p q : Prefix Family} {ipa : IpAddress} (hf : p.family = ipa.family)
    (hlen : p.add.length = ipa.width) (hq : q.add = ipa.bits) (hql : q.bitlen = ipa.width) :
    In (held p) (dbForm ipa) ↔ p.Covers q := by
  have hfits := p.fits
  have hbits : ipa.bits.length = ipa.width := by
    cases ipa with
    | v4 b => exact b.property
    | v6 b => exact b.property
  have hcovers : p.Covers q ↔ ipa.bits.take p.bitlen = p.add.take p.bitlen := by
    rw [← hq]
    exact ⟨And.right, fun h => ⟨by omega, h⟩⟩
  cases ipa with
  | v4 b =>
    have hwidth : p.add.length = 32 := hlen
    have hin : p.family = .inet := hf
    have hbl : netBitlen p = p.bitlen + 96 := if_pos hin
    have hna : netAddr p = List.replicate 12 0 ++ bytes p.add := if_pos hin
    have hform : dbForm (.v4 b) = List.replicate 12 0 ++ bytes b.val := rfl
    have hdiv : (p.bitlen + 96) / 8 = (List.replicate 12 (0 : UInt8)).length + p.bitlen / 8 := by
      rw [List.length_replicate]
      omega
    have hmod : (p.bitlen + 96) % 8 = p.bitlen % 8 := by omega
    have hget : ∀ l : In6Addr, (List.replicate 12 (0 : UInt8) ++ l).getD ((p.bitlen + 96) / 8) 0 = l.getD (p.bitlen / 8) 0 := by
      intro l
      rw [hdiv, List.getD_eq_getElem?_getD, List.getElem?_append_right (Nat.le_add_right _ _), Nat.add_sub_cancel_left,
        ← List.getD_eq_getElem?_getD]
    rw [in_held (netOk_inet hin hlen) (length_dbForm _), wholeBytes, lastByte, hbl, hna, hform, hget, hget, hmod, hdiv,
      List.take_length_add_append, List.take_length_add_append, List.append_cancel_left_eq, hcovers]
    exact (take_bits_iff (b.property.trans hwidth.symm) (by rw [b.property]; decide) (by rw [b.property]; omega)).symm
  | v6 b =>
    have hwidth : p.add.length = 128 := hlen
    have hin : p.family = .inet6 := hf
    have hno : p.family ≠ .inet := by
      rw [hin]
      decide
    have hbl : netBitlen p = p.bitlen := if_neg hno
    have hna : netAddr p = bytes p.add := if_neg hno
    have hform : dbForm (.v6 b) = bytes b.val := rfl
    rw [in_held (netOk_inet6 hin hlen) (length_dbForm _), wholeBytes, lastByte, hbl, hna, hform, hcovers]
    exact (take_bits_iff (b.property.trans hwidth.symm) (by rw [b.property]; decide) (by rw [b.property]; omega)).symm

/-! ## The tree -/

/-- What the tree matches: an address that a network of its family covers. -/
theorem accepts_iff (a : AllowedNets E) (ipa : IpAddress) :
    ∃ p : Prefix Family, p.add = ipa.bits ∧ p.bitlen = ipa.width ∧
      (a.tree.accepts ipa = true ↔ ∃ q, treeOf a.tree ipa = some q ∧ ∃ n ∈ q.nodes, n.key.Covers p) := by
  obtain ⟨p, hp, hadd, hbitlen⟩ := fillPrefix_full ipa
  refine ⟨p, hadd, hbitlen, ?_⟩
  have hbest : ∀ q : PTree E.P, (E.P.searchBest q.tree p).isSome = true ↔ ∃ n ∈ q.nodes, n.key.Covers p := by
    intro q
    rw [Option.isSome_iff_ne_none, ne_eq, E.P.searchBest_none]
    unfold PTree.nodes
    simp only [not_forall, not_not, exists_prop]
  have hmatch : ∀ q : PTree E.P, q.maxbits = ipa.width →
      E.ptreeMatch (some q) ipa.family ipa.bits ipa.width = some (E.P.searchBest q.tree p) := by
    intro q hq
    unfold Env.ptreeMatch
    dsimp only
    rw [hq, hp]
  cases ipa with
  | v4 b =>
    have hacc : a.tree.accepts (.v4 b) = (E.P.searchBest a.v4.tree p).isSome := by
      have hm : a.tree.matchAddress (.v4 b) = some (E.P.searchBest a.v4.tree p) := by
        have htree : a.tree.matchAddress (.v4 b) = E.ptreeMatch a.tree.ptreeV4 .inet b.val 32 := rfl
        rw [htree, a.ptreeV4]
        exact hmatch a.v4 a.maxbitsV4
      unfold AddressTree.accepts
      rw [hm]
      rfl
    rw [hacc, hbest]
    constructor
    · exact fun h => ⟨a.v4, a.ptreeV4, h⟩
    · rintro ⟨q, hq, h⟩
      have hq' : a.tree.ptreeV4 = some q := hq
      rw [a.ptreeV4] at hq'
      rw [Option.some.inj hq']
      exact h
  | v6 b =>
    cases hv6 : a.tree.ptreeV6 with
    | none =>
      have hacc : a.tree.accepts (.v6 b) = false := by
        unfold AddressTree.accepts AddressTree.matchAddress
        rw [hv6]
        rfl
      rw [hacc]
      constructor
      · intro h
        cases h
      · rintro ⟨q, hq, -⟩
        have hq' : a.tree.ptreeV6 = some q := hq
        rw [hv6] at hq'
        cases hq'
    | some q6 =>
      have hacc : a.tree.accepts (.v6 b) = (E.P.searchBest q6.tree p).isSome := by
        have hm : a.tree.matchAddress (.v6 b) = some (E.P.searchBest q6.tree p) := by
          have htree : a.tree.matchAddress (.v6 b) = E.ptreeMatch a.tree.ptreeV6 .inet6 b.val 128 := by
            unfold AddressTree.matchAddress
            rw [hv6]
            exact congrArg (E.ptreeMatch · .inet6 b.val 128) hv6
          rw [htree, hv6]
          exact hmatch q6 (a.v6 q6 hv6).1
        unfold AddressTree.accepts
        rw [hm]
        rfl
      rw [hacc, hbest]
      constructor
      · exact fun h => ⟨q6, hv6, h⟩
      · rintro ⟨q, hq, h⟩
        have hq' : a.tree.ptreeV6 = some q := hq
        rw [hv6] at hq'
        rw [Option.some.inj hq']
        exact h

/-! ## Stored forms -/

theorem family_cases (a : AllowedNets E) {n : Node Family} (h : n ∈ a.tree.walk) :
    (n.key.family = .inet ∧ n.key.add.length = 32) ∨ (n.key.family = .inet6 ∧ n.key.add.length = 128) := by
  rcases mem_walk.mp h with ⟨q, hq, hn⟩ | ⟨q, hq, hn⟩
  · rw [a.ptreeV4] at hq
    rw [← Option.some.inj hq] at hn
    exact Or.inl (a.nodesV4 n hn)
  · exact Or.inr ((a.v6 q hq).2 n hn)

/-- The networks of the tree of its family. -/
theorem mem_treeOf (a : AllowedNets E) {ipa : IpAddress} {n : Node Family} :
    (∃ q, treeOf a.tree ipa = some q ∧ n ∈ q.nodes) ↔ n ∈ a.tree.walk ∧ n.key.family = ipa.family := by
  rw [mem_walk]
  cases ipa with
  | v4 b =>
    constructor
    · rintro ⟨q, hq, hn⟩
      have hq' : a.tree.ptreeV4 = some q := hq
      refine ⟨Or.inl ⟨q, hq', hn⟩, ?_⟩
      rw [a.ptreeV4] at hq'
      exact (a.nodesV4 n (by rw [Option.some.inj hq']; exact hn)).1
    · rintro ⟨⟨q, hq, hn⟩ | ⟨q, hq, hn⟩, hf⟩
      · exact ⟨q, hq, hn⟩
      · rw [((a.v6 q hq).2 n hn).1] at hf
        cases hf
  | v6 b =>
    constructor
    · rintro ⟨q, hq, hn⟩
      exact ⟨Or.inr ⟨q, hq, hn⟩, ((a.v6 q hq).2 n hn).1⟩
    · rintro ⟨⟨q, hq, hn⟩ | ⟨q, hq, hn⟩, hf⟩
      · rw [a.ptreeV4] at hq
        rw [(a.nodesV4 n (by rw [Option.some.inj hq]; exact hn)).1] at hf
        cases hf
      · exact ⟨q, hq, hn⟩

/-- The tree matches an address that a network of its family holds. -/
theorem accepts_held (a : AllowedNets E) (ipa : IpAddress) :
    a.tree.accepts ipa = true ↔ ∃ n ∈ a.tree.walk, n.key.family = ipa.family ∧ In (held n.key) (dbForm ipa) := by
  obtain ⟨p, hp, hpl, hacc⟩ := accepts_iff a ipa
  have hlen : ∀ n ∈ a.tree.walk, n.key.family = ipa.family → n.key.add.length = ipa.width := by
    intro n hn hf
    rcases family_cases a hn with ⟨h, hl⟩ | ⟨h, hl⟩
    · cases ipa with
      | v4 b => exact hl
      | v6 b =>
        rw [h] at hf
        cases hf
    · cases ipa with
      | v4 b =>
        rw [h] at hf
        cases hf
      | v6 b => exact hl
  rw [hacc]
  constructor
  · rintro ⟨q, hq, n, hn, hc⟩
    obtain ⟨hmem, hf⟩ := (mem_treeOf a).mp ⟨q, hq, hn⟩
    exact ⟨n, hmem, hf, (held_covers hf (hlen n hmem hf) hp hpl).mpr hc⟩
  · rintro ⟨n, hmem, hf, hin⟩
    obtain ⟨q, hq, hn⟩ := (mem_treeOf a).mpr ⟨hmem, hf⟩
    exact ⟨q, hq, n, hn, (held_covers hf (hlen n hmem hf) hp hpl).mp hin⟩

/-- Every sixteen bytes are the form of an IPv6 address. -/
theorem form_v6 {x : In6Addr} (hx : x.length = 16) : ∃ b : Bits 128, dbForm (.v6 b) = x :=
  ⟨⟨bitsOf x, by rw [length_bitsOf, hx]⟩, bytes_bitsOf x⟩

/-- With twelve zeros in front they are that of an IPv4 address. -/
theorem form_v4 {x : In6Addr} (hx : x.length = 16) (hm : mapped <+: x) : ∃ b : Bits 32, dbForm (.v4 b) = x := by
  obtain ⟨r, rfl⟩ := hm
  have hr : r.length = 4 := by
    rw [mapped, List.length_append, List.length_replicate] at hx
    omega
  refine ⟨⟨bitsOf r, by rw [length_bitsOf, hr]⟩, ?_⟩
  show List.replicate 12 0 ++ bytes (bitsOf r) = mapped ++ r
  rw [bytes_bitsOf, mapped]

theorem mapped_form (b : Bits 32) : mapped <+: dbForm (.v4 b) := ⟨bytes b.val, rfl⟩

/-- What an IPv4 network holds has the zeros in front. -/
theorem mapped_of_held {p : Prefix Family} (hf : p.family = .inet) (hlen : p.add.length = 32) {x : In6Addr}
    (hx : x.length = 16) (h : In (held p) x) : mapped <+: x := by
  have htake := ((in_held (netOk_inet hf hlen) hx).mp h).1
  have hbl : netBitlen p = p.bitlen + 96 := if_pos hf
  have hna : netAddr p = mapped ++ bytes p.add := if_pos hf
  have hm : mapped.length = 12 := rfl
  rw [wholeBytes, hbl, hna] at htake
  have hfirst := congrArg (List.take 12) htake
  rw [List.take_take, List.take_take, Nat.min_eq_left (by omega), List.take_left' hm] at hfirst
  rw [List.prefix_iff_eq_take, hm, hfirst]

theorem in_heldBy {l : List (Node Family)} {x : In6Addr} : In (heldBy l) x ↔ ∃ n ∈ l, In (held n.key) x := in_flatMap

theorem in_spannedBy {l : List (Node Family)} {x : In6Addr} : In (spannedBy l) x ↔ ∃ n ∈ l, In (spanned n.key) x :=
  in_flatMap

/-- The tree matches the addresses of a stored form that the networks hold. -/
theorem acceptsForm_iff (a : AllowedNets E) {x : In6Addr} (hx : x.length = 16) :
    a.tree.AcceptsForm x ↔ In (heldBy a.tree.walk) x := by
  rw [in_heldBy]
  constructor
  · rintro ⟨ipa, rfl, hacc⟩
    obtain ⟨n, hn, -, hin⟩ := (accepts_held a ipa).mp hacc
    exact ⟨n, hn, hin⟩
  · rintro ⟨n, hn, hin⟩
    rcases family_cases a hn with ⟨hf, hlen⟩ | ⟨hf, hlen⟩
    · obtain ⟨b, hb⟩ := form_v4 hx (mapped_of_held hf hlen hx hin)
      exact ⟨.v4 b, hb, (accepts_held a _).mpr ⟨n, hn, hf, by rwa [hb]⟩⟩
    · obtain ⟨b, hb⟩ := form_v6 hx
      exact ⟨.v6 b, hb, (accepts_held a _).mpr ⟨n, hn, hf, by rwa [hb]⟩⟩

/-! ## The conditions -/

/-- Networks of whole bytes become what they hold. -/
theorem spanned_whole {p : Prefix Family} (h : netBitlen p % 8 = 0) : spanned p = held p := by
  rw [spanned, held, behind, behind, if_pos h, if_pos h]

/-- The lengths are right exactly if the networks hold what becomes of them. -/
theorem rightLengths_iff {l : List (Node Family)} (hl : ∀ n ∈ l, NetOk n.key) :
    RightLengths l ↔ ∀ x : In6Addr, x.length = 16 → (In (spannedBy l) x ↔ In (heldBy l) x) := by
  have hspan : ∀ n ∈ l, ∀ c ∈ spanned n.key, c.length ≤ 16 := fun n hn => length_behind (hl n hn) _
  have hheld : ∀ n ∈ l, ∀ c ∈ held n.key, c.length ≤ 16 := fun n hn => length_behind (hl n hn) _
  constructor
  · intro h x hx
    rw [in_spannedBy]
    constructor
    · rintro ⟨n, hn, hin⟩
      by_cases h0 : netBitlen n.key % 8 = 0
      · rw [spanned_whole h0] at hin
        exact in_heldBy.mpr ⟨n, hn, hin⟩
      · exact (filled_all_iff (hspan n hn)).mp (h n hn h0).1 x hx hin
    · intro hin
      obtain ⟨n, hn, hin⟩ := in_heldBy.mp hin
      by_cases h0 : netBitlen n.key % 8 = 0
      · rw [← spanned_whole h0] at hin
        exact ⟨n, hn, hin⟩
      · exact in_spannedBy.mp ((filled_all_iff (hheld n hn)).mp (h n hn h0).2 x hx hin)
  · intro h n hn _
    constructor
    · exact (filled_all_iff (hspan n hn)).mpr fun x hx hin => (h x hx).mp (in_spannedBy.mpr ⟨n, hn, hin⟩)
    · exact (filled_all_iff (hheld n hn)).mpr fun x hx hin => (h x hx).mpr (in_heldBy.mpr ⟨n, hn, hin⟩)

theorem filled_everything_iff (C : List In6Addr) : Filled C 16 [] ↔ ∀ x : In6Addr, x.length = 16 → In C x := by
  rw [filled_iff]
  constructor
  · exact fun h x hx => h x (by rw [hx]; rfl) List.nil_prefix
  · exact fun h x hx _ => h x (by rw [hx]; rfl)

/-- What the networks of one family hold. -/
theorem accepts_family (a : AllowedNets E) (ipa : IpAddress) :
    a.tree.accepts ipa = true ↔ match ipa with
      | .v4 _ => In (heldBy (a.tree.walk.filter fun n => n.key.family = .inet)) (dbForm ipa)
      | .v6 _ => In (heldBy (a.tree.walk.filter fun n => n.key.family ≠ .inet)) (dbForm ipa) := by
  rw [accepts_held]
  cases ipa with
  | v4 b =>
    simp only [in_heldBy, List.mem_filter, decide_eq_true_eq, and_assoc]
    rfl
  | v6 b =>
    simp only [in_heldBy, List.mem_filter, decide_eq_true_eq, and_assoc]
    apply exists_congr
    intro n
    refine and_congr_right fun hn => and_congr_left fun _ => ?_
    have hf6 : IpAddress.family (.v6 b) = .inet6 := rfl
    rw [hf6]
    rcases family_cases a hn with ⟨hf, -⟩ | ⟨hf, -⟩ <;> rw [hf] <;> decide

theorem acceptsForm_families (a : AllowedNets E) {x : In6Addr} (hx : x.length = 16) :
    a.tree.AcceptsForm x ↔ In (heldBy (a.tree.walk.filter fun n => n.key.family = .inet)) x ∨
      In (heldBy (a.tree.walk.filter fun n => n.key.family ≠ .inet)) x := by
  rw [acceptsForm_iff a hx, in_heldBy, in_heldBy, in_heldBy]
  simp only [List.mem_filter, decide_eq_true_eq]
  constructor
  · rintro ⟨n, hn, hin⟩
    by_cases hf : n.key.family = .inet
    · exact Or.inl ⟨n, ⟨hn, hf⟩, hin⟩
    · exact Or.inr ⟨n, ⟨hn, hf⟩, hin⟩
  · rintro (⟨n, ⟨hn, -⟩, hin⟩ | ⟨n, ⟨hn, -⟩, hin⟩)
    · exact ⟨n, hn, hin⟩
    · exact ⟨n, hn, hin⟩

/-- The families hold the same of ::/96 exactly if matching an address is matching its form. -/
theorem sameFamilies_iff (a : AllowedNets E) :
    SameFamilies a.tree.walk ↔ ∀ ipa, a.tree.accepts ipa = true ↔ a.tree.AcceptsForm (dbForm ipa) := by
  let v4 := heldBy (a.tree.walk.filter fun n => n.key.family = .inet)
  let v6 := heldBy (a.tree.walk.filter fun n => n.key.family ≠ .inet)
  have hfilter : ∀ (f : Node Family → Bool) (n), n ∈ a.tree.walk.filter f → n ∈ a.tree.walk :=
    fun f n hn => (List.mem_filter.mp hn).1
  have hlen : ∀ f, ∀ c ∈ heldBy (a.tree.walk.filter f), c.length ≤ 16 := by
    intro f c hc
    obtain ⟨n, hn, hc⟩ := List.mem_flatMap.mp hc
    exact length_behind (a.netOk (hfilter f n hn)) _ c hc
  have hmapped : ∀ x : In6Addr, x.length = 16 → In v4 x → mapped <+: x := by
    intro x hx hin
    obtain ⟨n, hn, hin⟩ := in_heldBy.mp hin
    obtain ⟨hn, hf⟩ := List.mem_filter.mp hn
    rw [decide_eq_true_eq] at hf
    rcases family_cases a hn with ⟨-, hl⟩ | ⟨hf', -⟩
    · exact mapped_of_held hf hl hx hin
    · rw [hf] at hf'
      cases hf'
  have h4 : ∀ b : Bits 32, a.tree.accepts (.v4 b) = true ↔ In v4 (dbForm (.v4 b)) := fun b => accepts_family a (.v4 b)
  have h6 : ∀ b : Bits 128, a.tree.accepts (.v6 b) = true ↔ In v6 (dbForm (.v6 b)) := fun b => accepts_family a (.v6 b)
  have hform : ∀ ipa, a.tree.AcceptsForm (dbForm ipa) ↔ In v4 (dbForm ipa) ∨ In v6 (dbForm ipa) :=
    fun ipa => acceptsForm_families a (length_dbForm ipa)
  have hfirst : (∀ c ∈ v4, Filled v6 (16 - c.length) c) ↔ ∀ b, a.tree.accepts (.v6 b) = true ↔ a.tree.AcceptsForm (dbForm (.v6 b)) := by
    rw [filled_all_iff (hlen _)]
    constructor
    · intro h b
      rw [h6, hform]
      exact ⟨Or.inr, fun hin => hin.elim (h _ (length_dbForm _)) id⟩
    · intro h x hx hin
      obtain ⟨b, rfl⟩ := form_v6 hx
      exact (h6 b).mp ((h b).mpr ((hform _).mpr (Or.inl hin)))
  have hsecond : (∀ c ∈ v6, (c <+: mapped → Filled v4 4 mapped) ∧ (mapped <+: c → Filled v4 (16 - c.length) c)) ↔
      ∀ b, a.tree.accepts (.v4 b) = true ↔ a.tree.AcceptsForm (dbForm (.v4 b)) := by
    constructor
    · intro h b
      rw [h4, hform]
      refine ⟨Or.inl, fun hin => hin.elim id ?_⟩
      rintro ⟨c, hc, hle⟩
      rcases List.prefix_or_prefix_of_prefix hle (mapped_form b) with hcm | hmc
      · exact filled_iff.mp ((h c hc).1 hcm) _ (length_dbForm _) (mapped_form b)
      · have := hlen _ c hc
        exact filled_iff.mp ((h c hc).2 hmc) _ (by rw [length_dbForm]; omega) hle
    · intro h c hc
      have hin : ∀ x : In6Addr, x.length = 16 → mapped <+: x → c <+: x → In v4 x := by
        intro x hx hm hle
        obtain ⟨b, rfl⟩ := form_v4 hx hm
        exact (h4 b).mp ((h b).mpr ((hform _).mpr (Or.inr ⟨c, hc, hle⟩)))
      have := hlen _ c hc
      constructor
      · exact fun hcm => filled_iff.mpr fun x hx hm => hin x hx hm (hcm.trans hm)
      · exact fun hmc => filled_iff.mpr fun x hx hle => hin x (by omega) (hmc.trans hle) hle
  have hsame : SameFamilies a.tree.walk ↔ (∀ c ∈ v4, Filled v6 (16 - c.length) c) ∧
      ∀ c ∈ v6, (c <+: mapped → Filled v4 4 mapped) ∧ (mapped <+: c → Filled v4 (16 - c.length) c) := Iff.rfl
  rw [hsame, hfirst, hsecond]
  constructor
  · rintro ⟨hv6, hv4⟩ ipa
    cases ipa with
    | v4 b => exact hv4 b
    | v6 b => exact hv6 b
  · exact fun h => ⟨fun b => h (.v6 b), fun b => h (.v4 b)⟩

/-! ## The law -/

/-- The filters of a walk that meets a match-all network. -/
theorem filters_matchAll {l : List (Node Family)} (h : ∃ n ∈ l, n.key.bitlen = 0) :
    ((∃ n rest, l = n :: rest ∧ n.key.bitlen = 0) →
        l.foldl allowedNetsWalker ⟨false, .null, .null, []⟩ = ⟨true, .null, .null, []⟩) ∧
      ((¬ ∃ n rest, l = n :: rest ∧ n.key.bitlen = 0) →
        (l.foldl allowedNetsWalker ⟨false, .null, .null, []⟩).hostsFilter = .freed) := by
  obtain ⟨pre, n, post, rfl, hpre, hn⟩ := split_at_matchAll h
  obtain ⟨h', f', heq, -, -, hnil, hcons⟩ := walk_nets hpre .null .null []
  have hdata : (pre ++ n :: post).foldl allowedNetsWalker ⟨false, .null, .null, []⟩ =
      allowedNetsWalker ⟨false, h', f', []⟩ n := by
    rw [List.foldl_append, List.foldl_cons, heq]
    exact walk_matched post (walker_matchAll [] hn).1
  obtain ⟨-, hclean, hfreed⟩ := walker_matchAll (h := h') (f := f') [] hn
  by_cases hp : pre = []
  · subst hp
    obtain ⟨hh, hf⟩ := hnil rfl
    refine ⟨fun _ => ?_, fun hno => absurd ⟨n, post, rfl, hn⟩ hno⟩
    rw [hdata]
    exact hclean hh hf
  · have hfirst : ¬ ∃ m rest, pre ++ n :: post = m :: rest ∧ m.key.bitlen = 0 := by
      rintro ⟨m, rest, hm, h0⟩
      cases pre with
      | nil => exact hp rfl
      | cons x pre =>
        rw [List.cons_append, List.cons.injEq] at hm
        rw [← hm.1] at h0
        exact hpre x (List.mem_cons_self ..) h0
    refine ⟨fun h => absurd h hfirst, fun _ => ?_⟩
    rw [hdata]
    exact hfreed (hcons hp).1.1

theorem any_netHosts (a : AllowedNets E) (ipa : IpAddress) :
    (a.tree.walk.any fun n => (netHosts n.key).eval (hostRow ipa)) = true ↔
      ∃ n ∈ a.tree.walk, Reaches n.key (dbForm ipa) := by
  rw [List.any_eq_true]
  apply exists_congr
  intro n
  exact and_congr_right fun hn => netHosts_eval (a.netOk hn) ipa

theorem any_netFlows (a : AllowedNets E) (cli srv : IpAddress) :
    (a.tree.walk.any fun n => (netFlows n.key).eval (flowRow cli srv)) = true ↔
      (∃ n ∈ a.tree.walk, Reaches n.key (dbForm cli)) ∨ ∃ n ∈ a.tree.walk, Reaches n.key (dbForm srv) := by
  rw [List.any_eq_true]
  constructor
  · rintro ⟨n, hn, h⟩
    rcases (netFlows_eval (a.netOk hn) cli srv).mp h with h | h
    · exact Or.inl ⟨n, hn, h⟩
    · exact Or.inr ⟨n, hn, h⟩
  · rintro (⟨n, hn, h⟩ | ⟨n, hn, h⟩)
    · exact ⟨n, hn, (netFlows_eval (a.netOk hn) cli srv).mpr (Or.inl h)⟩
    · exact ⟨n, hn, (netFlows_eval (a.netOk hn) cli srv).mpr (Or.inr h)⟩

/-- The filters of a walk along networks that do not match all. -/
theorem filters_nets (a : AllowedNets E) (hl : ∀ n ∈ a.tree.walk, n.key.bitlen ≠ 0) (hne : a.tree.walk ≠ []) :
    (∀ ipa, ∃ b, (buildSqliteAllowedNetworksFilters a.tree).hostsFilter.admits (hostRow ipa) = some b ∧
        (b = true ↔ ∃ n ∈ a.tree.walk, Reaches n.key (dbForm ipa))) ∧
      ∀ cli srv, ∃ b, (buildSqliteAllowedNetworksFilters a.tree).flowsFilter.admits (flowRow cli srv) = some b ∧
        (b = true ↔
          (∃ n ∈ a.tree.walk, Reaches n.key (dbForm cli)) ∨ ∃ n ∈ a.tree.walk, Reaches n.key (dbForm srv)) := by
  obtain ⟨h', f', heq, hh, hf, -, hcons⟩ := walk_nets hl .null .null []
  obtain ⟨hhost, hflow⟩ := hcons hne
  unfold buildSqliteAllowedNetworksFilters
  rw [heq]
  constructor
  · intro ipa
    refine ⟨h'.holds (hostRow ipa), admits_holds hhost _, ?_⟩
    rw [hh, ← any_netHosts]
    exact Iff.of_eq (congrArg (· = true) (Bool.false_or _))
  · intro cli srv
    refine ⟨f'.holds (flowRow cli srv), admits_holds hflow _, ?_⟩
    rw [hf, ← any_netFlows]
    exact Iff.of_eq (congrArg (· = true) (Bool.false_or _))

/-- The first network matches all: the filters are null, which admit every row. -/
theorem forms_first (a : AllowedNets E) (h : ∃ n rest, a.tree.walk = n :: rest ∧ n.key.bitlen = 0) :
    FormsOk a ↔ Filled (heldBy a.tree.walk) 16 [] := by
  have hall : ∃ n ∈ a.tree.walk, n.key.bitlen = 0 := by
    obtain ⟨n, rest, hn, h0⟩ := h
    exact ⟨n, by rw [hn]; exact List.mem_cons_self .., h0⟩
  have hbuild : buildSqliteAllowedNetworksFilters a.tree = ⟨true, .null, .null, []⟩ := (filters_matchAll hall).1 h
  rw [filled_everything_iff]
  constructor
  · intro hok x hx
    obtain ⟨b, rfl⟩ := form_v6 hx
    obtain ⟨r, hr, hacc⟩ := hok.hosts (.v6 b)
    rw [hbuild] at hr
    exact (acceptsForm_iff a hx).mp (hacc.mp (Option.some.inj hr).symm)
  · intro hfilled
    have hacc : ∀ ipa, a.tree.AcceptsForm (dbForm ipa) := fun ipa =>
      (acceptsForm_iff a (length_dbForm ipa)).mpr (hfilled _ (length_dbForm ipa))
    refine ⟨?_, ?_, ?_⟩
    · intro ipa
      rw [hbuild]
      exact ⟨true, rfl, fun _ => hacc ipa, fun _ => rfl⟩
    · intro cli srv
      rw [hbuild]
      exact ⟨true, rfl, fun _ => Or.inl (hacc cli), fun _ => rfl⟩
    · intro _
      rw [hbuild]
      exact ⟨rfl, rfl, rfl⟩

/-- A network that matches all, met after another one, leaves a freed filter behind. -/
theorem forms_later (a : AllowedNets E) (hall : ∃ n ∈ a.tree.walk, n.key.bitlen = 0)
    (hfirst : ¬ ∃ n rest, a.tree.walk = n :: rest ∧ n.key.bitlen = 0) : ¬ FormsOk a := by
  intro h
  have hhost := (h.released hall).1
  unfold buildSqliteAllowedNetworksFilters at hhost
  rw [(filters_matchAll hall).2 hfirst] at hhost
  cases hhost

def zeroAddress : IpAddress := .v4 ⟨List.replicate 32 false, by decide⟩

/-- Without networks the tree matches no form, and the filters, still null, admit every row. -/
theorem forms_nothing (a : AllowedNets E) (hnil : a.tree.walk = []) : ¬ FormsOk a := by
  intro h
  obtain ⟨b, hb, hacc⟩ := h.hosts zeroAddress
  unfold buildSqliteAllowedNetworksFilters at hb
  rw [hnil] at hb
  have hform := hacc.mp (Option.some.inj hb).symm
  rw [acceptsForm_iff a (length_dbForm _), hnil] at hform
  obtain ⟨c, hc, -⟩ := hform
  cases hc

theorem forms_nets (a : AllowedNets E) (hl : ∀ n ∈ a.tree.walk, n.key.bitlen ≠ 0) (hne : a.tree.walk ≠ []) :
    FormsOk a ↔ RightLengths a.tree.walk := by
  obtain ⟨hhosts, hflows⟩ := filters_nets a hl hne
  have hreach : ∀ ipa, (∃ n ∈ a.tree.walk, Reaches n.key (dbForm ipa)) ↔ In (spannedBy a.tree.walk) (dbForm ipa) := by
    intro ipa
    rw [in_spannedBy]
    exact exists_congr fun n => and_congr_right fun hn => (in_spanned (a.netOk hn) (length_dbForm ipa)).symm
  rw [rightLengths_iff fun n hn => a.netOk hn]
  constructor
  · intro h x hx
    obtain ⟨b, rfl⟩ := form_v6 hx
    obtain ⟨r, hr, hiff⟩ := hhosts (.v6 b)
    obtain ⟨s, hs, hacc⟩ := h.hosts (.v6 b)
    rw [hs] at hr
    rw [← hreach, ← acceptsForm_iff a hx, ← hiff, ← hacc, Option.some.inj hr]
  · intro hright
    have hacc : ∀ ipa, (∃ n ∈ a.tree.walk, Reaches n.key (dbForm ipa)) ↔ a.tree.AcceptsForm (dbForm ipa) := by
      intro ipa
      rw [hreach, acceptsForm_iff a (length_dbForm ipa)]
      exact hright _ (length_dbForm ipa)
    refine ⟨?_, ?_, fun ⟨n, hn, h0⟩ => absurd h0 (hl n hn)⟩
    · intro ipa
      obtain ⟨b, hb, hiff⟩ := hhosts ipa
      exact ⟨b, hb, hiff.trans (hacc ipa)⟩
    · intro cli srv
      obtain ⟨b, hb, hiff⟩ := hflows cli srv
      exact ⟨b, hb, hiff.trans (or_congr (hacc cli) (hacc srv))⟩

theorem forms_iff (a : AllowedNets E) : FormsOk a ↔ RightNets a.tree.walk := by
  unfold RightNets
  by_cases hfirst : ∃ n rest, a.tree.walk = n :: rest ∧ n.key.bitlen = 0
  · have hno : ¬ ∀ n ∈ a.tree.walk, n.key.bitlen ≠ 0 := by
      obtain ⟨n, rest, hn, h0⟩ := hfirst
      exact fun h => h n (by rw [hn]; exact List.mem_cons_self ..) h0
    rw [forms_first a hfirst, and_iff_right hfirst, or_iff_left fun h => hno h.2.1]
  · rw [or_iff_right fun h => hfirst h.1]
    by_cases hall : ∃ n ∈ a.tree.walk, n.key.bitlen = 0
    · obtain ⟨n, hn, h0⟩ := hall
      exact iff_of_false (forms_later a ⟨n, hn, h0⟩ hfirst) fun h => h.2.1 n hn h0
    · have hl : ∀ n ∈ a.tree.walk, n.key.bitlen ≠ 0 := fun n hn h0 => hall ⟨n, hn, h0⟩
      by_cases hne : a.tree.walk = []
      · exact iff_of_false (forms_nothing a hne) fun h => h.1 hne
      · rw [forms_nets a hl hne, and_iff_right hne, and_iff_right hl]

/-- Telling the families apart asks that matching an address is matching its form. -/
theorem filters_forms (a : AllowedNets E) : FiltersOk a ↔ FormsOk a ∧ SameFamilies a.tree.walk := by
  rw [sameFamilies_iff]
  constructor
  · intro h
    have hsame : ∀ ipa, a.tree.accepts ipa = true ↔ a.tree.AcceptsForm (dbForm ipa) := by
      intro ipa
      constructor
      · exact fun hacc => ⟨ipa, rfl, hacc⟩
      · rintro ⟨ipa', hform, hacc⟩
        have hrow : hostRow ipa' = hostRow ipa := by
          funext column
          exact hform
        have hhost := h.hosts ipa'
        rw [hrow, h.hosts ipa, hacc] at hhost
        exact Option.some.inj hhost
    refine ⟨⟨fun ipa => ⟨_, h.hosts ipa, hsame ipa⟩, fun cli srv => ⟨_, h.flows cli srv, ?_⟩, h.released⟩, hsame⟩
    rw [Bool.or_eq_true, hsame, hsame]
  · rintro ⟨h, hsame⟩
    refine ⟨?_, ?_, h.released⟩
    · intro ipa
      obtain ⟨b, hb, hacc⟩ := h.hosts ipa
      rw [hb]
      exact congrArg some (Bool.eq_iff_iff.mpr (hacc.trans (hsame ipa).symm))
    · intro cli srv
      obtain ⟨b, hb, hacc⟩ := h.flows cli srv
      rw [hb]
      apply congrArg some
      rw [Bool.eq_iff_iff, hacc, Bool.or_eq_true, hsame, hsame]

theorem sqlFilters_iff (a : AllowedNets E) :
    (FormsOk a ↔ RightNets a.tree.walk) ∧ (FiltersOk a ↔ RightNets a.tree.walk ∧ SameFamilies a.tree.walk) := by
  have hforms := forms_iff a
  refine ⟨hforms, ?_⟩
  rw [filters_forms, hforms]

/-- Networks of whole bytes, none of which matches all. -/
theorem rightNets_of_whole_bytes {l : List (Node Family)} (hne : l ≠ []) (h0 : ∀ n ∈ l, n.key.bitlen ≠ 0)
    (h8 : ∀ n ∈ l, netBitlen n.key % 8 = 0) : RightNets l :=
  Or.inr ⟨hne, h0, fun n hn hk => absurd (h8 n hn) hk⟩

/-! ## A network that does not end with a byte -/

def halfNetEnv : Env where
  P := .ofList
  nullOk := true
  inetPton4 _ := none
  inetPton6 _ := none
  inetNtop6 _ := []
  write _ := none
  parse _ := none

def ofBytes (l : List Nat) : List Bool := l.flatMap byteBits

/-- 192.168.1.0/25 -/
def halfNet : Prefix Family := ⟨.inet, ofBytes [192, 168, 1, 0], 25, by decide⟩

def halfNets : AllowedNets halfNetEnv where
  tree := { AddressTree.init true with ptreeV4 := some ⟨32, [⟨halfNet, 0⟩]⟩ }
  v4 := ⟨32, [⟨halfNet, 0⟩]⟩
  ptreeV4 := rfl
  maxbitsV4 := rfl
  nodesV4 n hn := by
    have hn' : n = ⟨halfNet, 0⟩ := List.mem_singleton.mp hn
    rw [hn']
    exact ⟨rfl, by decide⟩
  v6 q hq := by
    have hq' : q = .new 128 := (Option.some.inj hq).symm
    rw [hq']
    refine ⟨rfl, fun n hn => ?_⟩
    cases hn

/-- The host 192.168.1.200 is admitted, and not in the network. -/
theorem not_sqlFilters : ¬ FormsOk halfNets ∧ ¬ FiltersOk halfNets := by
  have hforms : ¬ FormsOk halfNets := by
    intro h
    obtain ⟨b, hb, hacc⟩ := h.hosts (.v4 ⟨ofBytes [192, 168, 1, 200], by decide⟩)
    have hadmits : b = true := Option.some.inj (hb.symm.trans (by decide))
    obtain ⟨n, hn, hin⟩ := in_heldBy.mp ((acceptsForm_iff halfNets (length_dbForm _)).mp (hacc.mp hadmits))
    rw [List.mem_singleton.mp hn, in_held (netOk_inet rfl (by decide)) (length_dbForm _)] at hin
    exact absurd hin.2 (by decide)
  exact ⟨hforms, fun h => hforms ((filters_forms halfNets).mp h).1⟩

end Ntopng.Addresses
