/-
  Ntopng.Tables.AsnConfiguration — the lists of customer, sub-customer and remote ASNs
  (src/ASNConfiguration.cpp).

  A list is the text Redis has under the key: its bytes before the NUL, none where the key is not there. The
  memory for it is there. `stoul` reads a text as `std::stoul` does, which throws where no number is read or where
  no `unsigned long` holds it. What is thrown leaves `reloadASNConfiguration`, and the set that is being
  filled goes with it.

  The numbers of a list are its items of digits only, once all spaces are taken out.

  Proved (`asn_law`): in a sequence of lists, each of which is loaded, every reload returns and leaves the
  numbers of its list, exactly if each item of a list is read, as a number that is, modulo 2^32, one of the
  list, and no empty list comes after one that is not.
-/

import Ntopng.Lib.CNumber
import Ntopng.Lib.Lines

namespace Ntopng.Tables.AsnConfiguration

open Ntopng.Lib.CString Ntopng.Lib.CNumber Ntopng.Lib.Lines

abbrev Text := List UInt8

structure ASNConfiguration where
  tree : Finset UInt32 := ∅
  treeShadow : Finset UInt32 := ∅

inductive Exception where
  | invalidArgument
  | outOfRange

/-- `strtoul` in base 10: the sign, and the digits. A minus takes the number from 2^64. -/
def stoul (asn : Text) : Except Exception UInt64 :=
  let s := asn.dropWhile isSpace
  let negative := s.head? = some (ch '-')
  let s := if negative ∨ s.head? = some (ch '+') then s.tail else s
  let digits := s.takeWhile isDigit
  if digits = [] then .error .invalidArgument
  else if ofDigits digits < 2 ^ 64 then
    let v := UInt64.ofNat (ofDigits digits)
    .ok (if negative then -v else v)
  else .error .outOfRange

/-- `asnStr.erase(std::remove(asnStr.begin(), asnStr.end(), ' '), asnStr.end())` -/
def removeSpaces (asnStr : Text) : Text := asnStr.filter (· ≠ ch ' ')

def loadItems (tree : Finset UInt32) : List Text → Except Exception (Finset UInt32)
  | [] => .ok tree
  | asn :: items =>
    match stoul asn with
    | .ok v => loadItems (insert v.toUInt32 tree) items
    | .error e => .error e

def loadConfiguration (tree : Finset UInt32) (rsp : Text) : Except Exception (Finset UInt32) :=
  if rsp.length > 0 then loadItems tree (lines (ch ',') (removeSpaces rsp) []) else .ok tree

/-- The configuration, and what is thrown. -/
def reloadASNConfiguration (c : ASNConfiguration) (rsp : Text) : ASNConfiguration × Option Exception :=
  match loadConfiguration ∅ rsp with
  | .ok newTree => (if newTree ≠ ∅ then { treeShadow := c.tree, tree := newTree } else c, none)
  | .error e => (c, some e)

def findASN (c : ASNConfiguration) (asn : UInt32) : Bool := decide (asn ∈ c.tree)

/-! ## Lists -/

/-- Of the decimal numbers of the list. -/
def Lists (list : Text) (asn : UInt32) : Prop :=
  ∃ item ∈ (removeSpaces list).splitOn (ch ','), item ≠ [] ∧ (∀ c ∈ item, isDigit c) ∧ ofDigits item = asn.toNat

/-- Each reload returns, and leaves the numbers of its list. -/
def Follows (c : ASNConfiguration) : List Text → Prop
  | [] => True
  | list :: lists =>
    (reloadASNConfiguration c list).2 = none ∧
      (∀ asn, findASN (reloadASNConfiguration c list).1 asn ↔ Lists list asn) ∧
      Follows (reloadASNConfiguration c list).1 lists

def Blank (list : Text) : Prop := removeSpaces list = []

/-- The items as the loop of the code reads them. -/
def itemsOf (list : Text) : List Text := lines (ch ',') (removeSpaces list) []

/-- The item is read as a number that is, as 32 bits, one of the list. -/
def ItemOk (list item : Text) : Prop := ∃ v, stoul item = .ok v ∧ Lists list v.toUInt32

/-! ## One reload -/

variable {c : ASNConfiguration} {list item : Text} {tree tree' : Finset UInt32}

theorem stoul_digits (hne : item ≠ []) (h : ∀ c ∈ item, isDigit c) {asn : UInt32} (hv : ofDigits item = asn.toNat) :
    stoul item = .ok asn.toUInt64 := by
  obtain ⟨d, s, rfl⟩ := List.exists_cons_of_ne_nil hne
  have hd := h d (List.mem_cons_self ..)
  have hspace : isSpace d = false := not_isSpace (.inr hd)
  obtain ⟨hminus, hplus⟩ := isDigit_ne hd
  have hdrop : (d :: s).dropWhile isSpace = d :: s := by rw [List.dropWhile_cons, hspace]; rfl
  have htake : (d :: s).takeWhile isDigit = d :: s := List.takeWhile_eq_self_iff.mpr h
  have hlt := asn.toNat_lt
  rw [stoul, hdrop]
  simp only [List.head?_cons, Option.some_inj, if_neg (show ¬ (d = ch '-' ∨ d = ch '+') from not_or.mpr ⟨hminus, hplus⟩), htake,
    if_neg hne, hv, if_neg hminus]
  rw [if_pos (by omega)]
  congr 1
  rw [← UInt64.toNat_inj, UInt64.toNat_ofNat', UInt32.toNat_toUInt64]
  omega

theorem loadItems_ok {items : List Text} (h : loadItems tree items = .ok tree') (asn : UInt32) :
    asn ∈ tree' ↔ asn ∈ tree ∨ ∃ item ∈ items, ∃ v, stoul item = .ok v ∧ v.toUInt32 = asn := by
  induction items generalizing tree with
  | nil =>
    obtain rfl := Except.ok.inj h
    simp
  | cons item items ih =>
    rw [loadItems] at h
    cases hitem : stoul item with
    | error e =>
      rw [hitem] at h
      cases h
    | ok v =>
      rw [hitem] at h
      rw [ih h, Finset.mem_insert, List.exists_mem_cons_iff, hitem, or_comm (a := asn = _), or_assoc]
      refine or_congr_right (or_congr_left ?_)
      constructor
      · rintro rfl
        exact ⟨v, rfl, rfl⟩
      · rintro ⟨w, hw, rfl⟩
        rw [Except.ok.inj hw]

theorem loadItems_total {items : List Text} :
    (∃ tree', loadItems tree items = .ok tree') ↔ ∀ item ∈ items, ∃ v, stoul item = .ok v := by
  induction items generalizing tree with
  | nil => exact iff_of_true ⟨tree, rfl⟩ fun item h => absurd h List.not_mem_nil
  | cons item items ih =>
    rw [List.forall_mem_cons, loadItems]
    cases hitem : stoul item with
    | error e =>
      refine iff_of_false ?_ ?_
      · rintro ⟨tree', h⟩
        cases h
      · rintro ⟨⟨v, hv⟩, -⟩
        cases hv
    | ok v => rw [ih, and_iff_right ⟨v, rfl⟩]

theorem itemsOf_nil : itemsOf list = [] ↔ Blank list := by
  rw [itemsOf, lines_eq_nil, and_iff_left rfl, Blank]

theorem loadConfiguration_eq (list : Text) : loadConfiguration ∅ list = loadItems ∅ (itemsOf list) := by
  rw [loadConfiguration]
  split
  · rfl
  next h =>
    obtain rfl : list = [] := List.length_eq_zero_iff.mp (Nat.eq_zero_of_not_pos h)
    rfl

theorem lists_iff {asn : UInt32} : Lists list asn ↔
    ∃ item ∈ itemsOf list, item ≠ [] ∧ (∀ c ∈ item, isDigit c) ∧ ofDigits item = asn.toNat := by
  refine exists_congr fun item => ?_
  constructor
  · rintro ⟨hmem, hne, hrest⟩
    exact ⟨(mem_lines hne).mpr hmem, hne, hrest⟩
  · rintro ⟨hmem, hne, hrest⟩
    exact ⟨(mem_lines hne).mp hmem, hne, hrest⟩

/-- A number of the list is read as itself. -/
theorem read_of_lists {asn : UInt32} (h : Lists list asn) :
    ∃ item ∈ itemsOf list, ∃ v, stoul item = .ok v ∧ v.toUInt32 = asn := by
  obtain ⟨item, hmem, hne, hdigits, hv⟩ := lists_iff.mp h
  exact ⟨item, hmem, asn.toUInt64, stoul_digits hne hdigits hv, by simp⟩

theorem not_lists_of_blank (h : Blank list) (asn : UInt32) : ¬ Lists list asn := by
  intro hlists
  obtain ⟨item, hmem, -⟩ := read_of_lists hlists
  rw [itemsOf_nil.mpr h] at hmem
  cases hmem

/-- An empty list leaves the configuration as it is. -/
theorem reload_blank (h : Blank list) (c : ASNConfiguration) : reloadASNConfiguration c list = (c, none) := by
  rw [reloadASNConfiguration, loadConfiguration_eq, itemsOf_nil.mpr h]
  rfl

/-- What is thrown leaves the configuration as it is. -/
theorem reload_thrown (h : ¬ ∀ item ∈ itemsOf list, ∃ v, stoul item = .ok v) (c : ASNConfiguration) :
    ∃ e, reloadASNConfiguration c list = (c, some e) := by
  rw [reloadASNConfiguration, loadConfiguration_eq]
  cases hload : loadItems ∅ (itemsOf list) with
  | error e => exact ⟨e, rfl⟩
  | ok tree => exact absurd (loadItems_total.mp ⟨tree, hload⟩) h

theorem reload_read (hlist : ¬ Blank list) (h : ∀ item ∈ itemsOf list, ∃ v, stoul item = .ok v) (c : ASNConfiguration) :
    ∃ tree, reloadASNConfiguration c list = ({ treeShadow := c.tree, tree := tree }, none) ∧ tree ≠ ∅ ∧
      ∀ asn, asn ∈ tree ↔ ∃ item ∈ itemsOf list, ∃ v, stoul item = .ok v ∧ v.toUInt32 = asn := by
  obtain ⟨tree, hload⟩ := loadItems_total.mpr h
  have hmem : ∀ asn, asn ∈ tree ↔ ∃ item ∈ itemsOf list, ∃ v, stoul item = .ok v ∧ v.toUInt32 = asn := fun asn => by
    rw [loadItems_ok hload, or_iff_right (Finset.notMem_empty asn)]
  obtain ⟨item, items, hitems⟩ := List.exists_cons_of_ne_nil fun hnil => hlist (itemsOf_nil.mp hnil)
  have hne : tree ≠ ∅ := by
    obtain ⟨v, hv⟩ := h item (by rw [hitems]; exact List.mem_cons_self ..)
    exact Finset.ne_empty_of_mem ((hmem v.toUInt32).mpr ⟨item, by rw [hitems]; exact List.mem_cons_self .., v, hv, rfl⟩)
  refine ⟨tree, ?_, hne, hmem⟩
  rw [reloadASNConfiguration, loadConfiguration_eq, hload]
  simp only [if_pos hne]

/-- One reload leaves the numbers of its list. -/
theorem reload_iff (c : ASNConfiguration) (list : Text) :
    ((reloadASNConfiguration c list).2 = none ∧ ∀ asn, findASN (reloadASNConfiguration c list).1 asn ↔ Lists list asn) ↔
      (Blank list → c.tree = ∅) ∧ ∀ item ∈ itemsOf list, ItemOk list item := by
  by_cases hlist : Blank list
  · have hitems : ∀ item ∈ itemsOf list, ItemOk list item := by
      rw [itemsOf_nil.mpr hlist]
      exact fun item h => absurd h List.not_mem_nil
    rw [reload_blank hlist, and_iff_right rfl, and_iff_left hitems, forall_prop_of_true hlist,
      Finset.eq_empty_iff_forall_notMem]
    refine forall_congr' fun asn => ?_
    rw [findASN, decide_eq_true_iff, iff_false_right (not_lists_of_blank hlist asn)]
  · by_cases hread : ∀ item ∈ itemsOf list, ∃ v, stoul item = .ok v
    · obtain ⟨tree, hreload, -, hmem⟩ := reload_read hlist hread c
      rw [hreload, and_iff_right rfl, and_iff_right fun h => absurd h hlist]
      constructor
      · intro h item hitem
        obtain ⟨v, hv⟩ := hread item hitem
        exact ⟨v, hv, (h v.toUInt32).mp (decide_eq_true ((hmem _).mpr ⟨item, hitem, v, hv, rfl⟩))⟩
      · intro h asn
        rw [findASN, decide_eq_true_iff, hmem]
        constructor
        · rintro ⟨item, hitem, v, hv, rfl⟩
          obtain ⟨w, hw, hlists⟩ := h item hitem
          obtain rfl : v = w := Except.ok.inj (hv.symm.trans hw)
          exact hlists
        · exact read_of_lists
    · obtain ⟨e, hreload⟩ := reload_thrown hread c
      refine iff_of_false ?_ fun h => hread fun item hitem => ?_
      · rintro ⟨hnone, -⟩
        rw [hreload] at hnone
        cases hnone
      · obtain ⟨v, hv, -⟩ := h.2 item hitem
        exact ⟨v, hv⟩

/-! ## The result -/

/-- A set that is not empty is so for good. -/
theorem tree_reload (h : ∀ item ∈ itemsOf list, ItemOk list item) (c : ASNConfiguration) :
    (reloadASNConfiguration c list).1.tree = ∅ ↔ Blank list ∧ c.tree = ∅ := by
  by_cases hlist : Blank list
  · rw [reload_blank hlist, and_iff_right hlist]
  · have hread : ∀ item ∈ itemsOf list, ∃ v, stoul item = .ok v := fun item hitem => by
      obtain ⟨v, hv, -⟩ := h item hitem
      exact ⟨v, hv⟩
    obtain ⟨tree, hreload, hne, -⟩ := reload_read hlist hread c
    rw [hreload]
    exact iff_of_false hne fun h => hlist h.1

theorem forall_split_cons {α : Type*} {P : List α → α → Prop} {a : α} {l : List α} :
    (∀ earlier x later, a :: l = earlier ++ x :: later → P earlier x) ↔
      P [] a ∧ ∀ earlier x later, l = earlier ++ x :: later → P (a :: earlier) x := by
  constructor
  · intro h
    refine ⟨h [] a l rfl, ?_⟩
    rintro earlier x later rfl
    exact h (a :: earlier) x later rfl
  · rintro ⟨hfirst, hrest⟩ earlier x later heq
    rcases List.cons_eq_append_iff.mp heq with ⟨rfl, hcons⟩ | ⟨earlier, rfl, rfl⟩
    · rw [(List.cons.inj hcons).1]
      exact hfirst
    · exact hrest earlier x later rfl

theorem follows_iff (c : ASNConfiguration) (lists : List Text) : Follows c lists ↔
    ∀ earlier list later, lists = earlier ++ list :: later →
      (Blank list → c.tree = ∅ ∧ ∀ l ∈ earlier, Blank l) ∧ ∀ item ∈ itemsOf list, ItemOk list item := by
  induction lists generalizing c with
  | nil => exact iff_of_true trivial fun earlier list later h => absurd h (by simp)
  | cons list lists ih =>
    have hnil : ∀ l ∈ ([] : List Text), Blank l := fun l hl => absurd hl List.not_mem_nil
    rw [Follows, ← and_assoc, reload_iff, ih, forall_split_cons, and_iff_left hnil]
    refine and_congr_right fun hstep => forall_congr' fun earlier => forall_congr' fun l => forall_congr' fun later => ?_
    refine imp_congr_right fun _ => and_congr_left' ?_
    rw [tree_reload hstep.2, List.forall_mem_cons, and_assoc, and_left_comm]

theorem asn_law (lists : List Text) : Follows {} lists ↔
    ∀ earlier list later, lists = earlier ++ list :: later →
      (Blank list → ∀ l ∈ earlier, Blank l) ∧ ∀ item ∈ itemsOf list, ItemOk list item := by
  simp only [follows_iff, true_and]

/-- An empty list after one with two numbers leaves these; an item that is no number is thrown. -/
theorem emptied_or_not_a_number : ¬ Follows {} [text "65001, 65002", []] ∧ ¬ Follows {} [text "65001,none"] := by
  constructor
  · intro h
    have hblank := (((follows_iff ..).mp h [text "65001, 65002"] [] [] rfl).1 rfl).2
    exact absurd (hblank _ (List.mem_singleton_self _)) (show removeSpaces (text "65001, 65002") ≠ [] by decide)
  · intro h
    have hok := ((follows_iff ..).mp h [] (text "65001,none") [] rfl).2
    obtain ⟨v, hv, -⟩ := hok (text "none") (show text "none" ∈ lines _ _ _ by decide)
    cases hv

end Ntopng.Tables.AsnConfiguration
