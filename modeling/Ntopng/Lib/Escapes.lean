/-
  Ntopng.Lib.Escapes — texts between marks, where an escape letter stands before the marks that belong to a text.

  `escape` writes one, `readText` reads one up to the first mark that is not escaped. The escape letter
  stands for itself before anything else, and is not escaped, so a text that ends with it can not be
  written before a mark; nor can one with a letter that ends a text always (`stop`).

  Items with a separator between them are read by `items`, each by a reader of its own.

  Proved: what is read is what has been written, of the texts that can be (`readText_iff`); the same
  for items (`items_sound`, `items_complete`); and how often a letter is in what is written.
-/

import Mathlib

namespace Ntopng.Lib.Escapes

variable {α β : Type}

structure Marks (α : Type) where
  esc : α
  special : α → Bool
  stop : α → Bool
  esc_special : special esc = false
  special_stop : ∀ c, special c → stop c = false

namespace Marks

variable (M : Marks α)

def escape (d : List α) : List α := d.flatMap fun c => if M.special c then [M.esc, c] else [c]

structure Writable (d : List α) : Prop where
  stop : ∀ c ∈ d, M.stop c = false
  last : d.getLast? ≠ some M.esc

variable {M} {a b c : α} {d l r : List α}

/-! ## What is written -/

theorem escape_nil : M.escape [] = [] := rfl

theorem escape_cons_special (h : M.special a = true) : M.escape (a :: d) = M.esc :: a :: M.escape d := by
  rw [escape, List.flatMap_cons, if_pos h]
  rfl

theorem escape_cons_plain (h : M.special a = false) : M.escape (a :: d) = a :: M.escape d := by
  rw [escape, List.flatMap_cons, if_neg (ne_true_of_eq_false h)]
  rfl

theorem escape_append : M.escape (d ++ l) = M.escape d ++ M.escape l := List.flatMap_append

theorem escape_eq_self (h : ∀ c ∈ d, M.special c = false) : M.escape d = d := by
  induction d with
  | nil => rfl
  | cons a d ih =>
    rw [escape_cons_plain (h a (List.mem_cons_self ..)), ih fun c hc => h c (List.mem_cons_of_mem a hc)]

theorem escape_congr {M' : Marks α} (hesc : M.esc = M'.esc) (h : ∀ c ∈ d, M.special c = M'.special c) :
    M.escape d = M'.escape d := by
  induction d with
  | nil => rfl
  | cons a d ih =>
    have hrest := ih fun c hc => h c (List.mem_cons_of_mem a hc)
    have ha := h a (List.mem_cons_self ..)
    cases hs : M.special a with
    | true => rw [escape_cons_special hs, escape_cons_special (ha ▸ hs), hrest, hesc]
    | false => rw [escape_cons_plain hs, escape_cons_plain (ha ▸ hs), hrest]

theorem mem_escape (h : c ∈ d) : c ∈ M.escape d := by
  refine List.mem_flatMap.mpr ⟨c, h, ?_⟩
  split
  · exact List.mem_cons_of_mem _ (List.mem_singleton_self c)
  · exact List.mem_singleton_self c

theorem mem_of_mem_escape (h : c ∈ M.escape d) : c = M.esc ∨ c ∈ d := by
  obtain ⟨a, ha, hc⟩ := List.mem_flatMap.mp h
  split at hc
  · rcases List.mem_cons.mp hc with rfl | hc
    · exact .inl rfl
    · exact .inr (List.mem_singleton.mp hc ▸ ha)
  · exact .inr (List.mem_singleton.mp hc ▸ ha)

theorem Writable.nil : M.Writable [] := ⟨fun _ h => absurd h List.not_mem_nil, by simp⟩

theorem Writable.tail (h : M.Writable (a :: d)) : M.Writable d := by
  refine ⟨fun c hc => h.stop c (List.mem_cons_of_mem a hc), ?_⟩
  intro hlast
  refine h.last ?_
  rw [List.getLast?_cons, hlast]
  rfl

theorem Writable.cons (h : M.Writable d) (hstop : M.stop a = false) (ha : d = [] → a ≠ M.esc) : M.Writable (a :: d) := by
  refine ⟨?_, ?_⟩
  · intro c hc
    rcases List.mem_cons.mp hc with rfl | hc
    · exact hstop
    · exact h.stop c hc
  · rw [List.getLast?_cons]
    intro hlast
    cases hd : d.getLast? with
    | none =>
      rw [hd] at hlast
      exact ha (List.getLast?_eq_none_iff.mp hd) (Option.some.inj hlast)
    | some c =>
      rw [hd] at hlast
      exact h.last (hd.trans hlast)

variable [DecidableEq α]

theorem count_escape (h : c ≠ M.esc) : (M.escape d).count c = d.count c := by
  induction d with
  | nil => rfl
  | cons a d ih =>
    cases hs : M.special a with
    | true => rw [escape_cons_special hs, List.count_cons_of_ne (Ne.symm h), List.count_cons, List.count_cons, ih]
    | false => rw [escape_cons_plain hs, List.count_cons, List.count_cons, ih]

/-- Every mark in a text has brought one escape letter. -/
theorem count_esc_escape : (M.escape d).count M.esc = d.count M.esc + d.countP M.special := by
  induction d with
  | nil => rfl
  | cons a d ih =>
    cases hs : M.special a with
    | true =>
      have hne : a ≠ M.esc := by
        rintro rfl
        rw [M.esc_special] at hs
        exact Bool.false_ne_true hs
      rw [escape_cons_special hs, List.count_cons_self, List.count_cons_of_ne hne, List.count_cons_of_ne hne,
        List.countP_cons_of_pos hs, ih]
      omega
    | false =>
      rw [escape_cons_plain hs, List.count_cons, List.count_cons, List.countP_cons_of_neg (ne_true_of_eq_false hs), ih]
      omega

/-! ## What is read -/

variable (M)

def readText : List α → List α × List α
  | [] => ([], [])
  | [c] => if M.special c || M.stop c then ([], [c]) else ([c], [])
  | c :: d :: l =>
    if c = M.esc ∧ M.special d then (d :: (readText l).1, (readText l).2)
    else if M.special c || M.stop c then ([], c :: d :: l)
    else (c :: (readText (d :: l)).1, (readText (d :: l)).2)

variable {M}

theorem readText_mark (h : M.special c = true) : M.readText (c :: r) = ([], c :: r) := by
  cases r with
  | nil => rw [readText, h, Bool.true_or, if_pos rfl]
  | cons e r =>
    have hne : c ≠ M.esc := by
      rintro rfl
      rw [M.esc_special] at h
      exact Bool.false_ne_true h
    rw [readText, if_neg (fun hc => hne hc.1), h, Bool.true_or, if_pos rfl]

theorem readText_escape (hd : M.Writable d) (hc : M.special c = true) :
    M.readText (M.escape d ++ c :: r) = (d, c :: r) := by
  induction d with
  | nil => exact readText_mark hc
  | cons a d ih =>
    cases hs : M.special a with
    | true =>
      rw [escape_cons_special hs, List.cons_append, List.cons_append, readText, if_pos ⟨rfl, hs⟩, ih hd.tail]
    | false =>
      have hstop : (M.special a || M.stop a) = false := by rw [hs, hd.stop a (List.mem_cons_self ..)]; rfl
      have hrest := ih hd.tail
      rw [escape_cons_plain hs, List.cons_append]
      -- the escape letter comes before a mark only at the end of the text
      have hpair : ∀ e l, M.escape d ++ c :: r = e :: l → ¬ (a = M.esc ∧ M.special e = true) := by
        rintro e l hl ⟨rfl, he⟩
        cases d with
        | nil => exact hd.last rfl
        | cons b d =>
          cases hb : M.special b with
          | true =>
            rw [escape_cons_special hb, List.cons_append] at hl
            rw [← (List.cons.inj hl).1, M.esc_special] at he
            exact Bool.false_ne_true he
          | false =>
            rw [escape_cons_plain hb, List.cons_append] at hl
            rw [← (List.cons.inj hl).1, hb] at he
            exact Bool.false_ne_true he
      cases hl : M.escape d ++ c :: r with
      | nil => exact absurd hl (by simp)
      | cons e l =>
        rw [readText, if_neg (hpair e l hl), hstop, if_neg Bool.false_ne_true, ← hl, hrest]

theorem readText_some (h : M.readText l = (d, c :: r)) (hc : M.special c = true) :
    l = M.escape d ++ c :: r ∧ M.Writable d := by
  fun_induction readText M l generalizing d with
  | case1 => cases h
  | case2 a ha =>
    rcases Prod.mk.inj h with ⟨rfl, hr⟩
    exact ⟨hr, .nil⟩
  | case3 a ha => cases h
  | case4 a e l he ih =>
    rcases Prod.mk.inj h with ⟨rfl, hr⟩
    rcases ih (Prod.ext rfl hr) with ⟨hl, hw⟩
    refine ⟨?_, hw.cons (M.special_stop e he.2) fun _ => ?_⟩
    · rw [escape_cons_special he.2, List.cons_append, List.cons_append, ← hl, he.1]
    · rintro rfl
      rw [M.esc_special] at he
      exact Bool.false_ne_true he.2
  | case5 a e l he ha =>
    rcases Prod.mk.inj h with ⟨rfl, hr⟩
    exact ⟨hr, .nil⟩
  | case6 a e l he ha ih =>
    rcases Prod.mk.inj h with ⟨rfl, hr⟩
    rw [Bool.or_eq_true, not_or, Bool.not_eq_true, Bool.not_eq_true] at ha
    rcases ih (Prod.ext rfl hr) with ⟨hl, hw⟩
    refine ⟨?_, hw.cons ha.2 fun hnil => ?_⟩
    · rw [escape_cons_plain ha.1, List.cons_append, ← hl]
    · rintro rfl
      rw [hnil, escape_nil, List.nil_append] at hl
      exact he ⟨rfl, (List.cons.inj hl).1.symm ▸ hc⟩

theorem readText_iff (hc : M.special c = true) :
    M.readText l = (d, c :: r) ↔ l = M.escape d ++ c :: r ∧ M.Writable d := by
  constructor
  · intro h
    exact readText_some h hc
  · rintro ⟨rfl, hd⟩
    exact readText_escape hd hc

end Marks

/-! ## Items -/

/-- A text of items, where `R` says what is a text of one. -/
inductive Joined (sep : α) (R : β → List α → Prop) : List β → List α → Prop
  | one {x : β} {t : List α} : R x t → Joined sep R [x] t
  | more {x : β} {xs : List β} {t s : List α} : R x t → Joined sep R xs s → Joined sep R (x :: xs) (t ++ sep :: s)

/-- Texts of the items with the separator between them. -/
def join (sep : α) (f : β → List α) : List β → List α
  | [] => []
  | x :: xs => f x ++ xs.flatMap fun y => sep :: f y

abbrev Reader (α β : Type) := List α → Option (β × List α)

/-- Not more than `n` items. -/
def items [DecidableEq α] (sep : α) (item : Reader α β) : (n : ℕ) → Reader α (List β)
  | 0, _ => none
  | n + 1, l =>
    (item l).bind fun p =>
      match p.2 with
      | [] => some ([p.1], [])
      | c :: r => if c = sep then (items sep item n r).map fun q => (p.1 :: q.1, q.2) else some ([p.1], c :: r)

/-- What is taken from the input is a text of what is read. -/
def Sound (item : Reader α β) (R : β → List α → Prop) : Prop :=
  ∀ l x r, item l = some (x, r) → ∃ t, R x t ∧ l = t ++ r

/-- A text is read up to a letter of the kind that may follow. -/
def Complete (item : Reader α β) (R : β → List α → Prop) (follow : α → Prop) : Prop :=
  ∀ x t c r, R x t → follow c → item (t ++ c :: r) = some (x, c :: r)

variable {sep c : α} {item : Reader α β} {R : β → List α → Prop} {follow : α → Prop} {x : β} {xs : List β}
  {t l r : List α}

theorem Joined.ne_nil (h : Joined sep R xs t) : xs ≠ [] := by
  cases h with
  | one hx => exact List.cons_ne_nil _ _
  | more hx hxs => exact List.cons_ne_nil _ _

theorem Joined.mono {R' : β → List α → Prop} (h : Joined sep R xs t) (hR : ∀ x ∈ xs, ∀ t, R x t → R' x t) :
    Joined sep R' xs t := by
  induction h with
  | one hx => exact .one (hR _ (List.mem_cons_self ..) _ hx)
  | more hx hrest ih =>
    exact .more (hR _ (List.mem_cons_self ..) _ hx) (ih fun x hx => hR x (List.mem_cons_of_mem _ hx))

theorem Joined.mem (h : Joined sep R xs t) (hx : x ∈ xs) : ∃ s, R x s ∧ s ⊆ t := by
  induction h with
  | one hy =>
    rw [List.mem_singleton] at hx
    exact ⟨_, hx ▸ hy, List.Subset.refl _⟩
  | more hy hrest ih =>
    rcases List.mem_cons.mp hx with rfl | hx
    · exact ⟨_, hy, List.subset_append_left _ _⟩
    · obtain ⟨s, hs, hsub⟩ := ih hx
      exact ⟨s, hs, List.subset_append_of_subset_right _ (List.subset_cons_of_subset _ hsub)⟩

/-- Each item takes a letter, so there are not more items than letters. -/
theorem Joined.length_le (h : Joined sep R xs t) (hR : ∀ x ∈ xs, ∀ t, R x t → t ≠ []) : xs.length ≤ t.length := by
  induction h with
  | one hx => exact List.length_pos_iff.mpr (hR _ (List.mem_cons_self ..) _ hx)
  | more hx hrest ih =>
    have hlen := ih fun x hx => hR x (List.mem_cons_of_mem _ hx)
    rw [List.length_cons, List.length_append, List.length_cons]
    omega

theorem joined_join {γ : Type} {g : γ → β} {f : γ → List α} {ys : List γ} (hne : ys ≠ [])
    (h : ∀ y ∈ ys, R (g y) (f y)) : Joined sep R (ys.map g) (join sep f ys) := by
  induction ys with
  | nil => exact absurd rfl hne
  | cons y ys ih =>
    have hy := h y (List.mem_cons_self ..)
    cases ys with
    | nil =>
      rw [join, List.flatMap_nil, List.append_nil]
      exact .one hy
    | cons z zs => exact .more hy (ih (List.cons_ne_nil z zs) fun x hx => h x (List.mem_cons_of_mem y hx))

variable [DecidableEq α]

/-- How often a letter is in a text, when it is not the separator. -/
theorem Joined.count {b : α} {w : β → ℕ} (h : Joined sep R xs t) (hb : b ≠ sep)
    (hw : ∀ x ∈ xs, ∀ t, R x t → t.count b = w x) : t.count b = (xs.map w).sum := by
  induction h with
  | one hx =>
    rw [hw _ (List.mem_cons_self ..) _ hx, List.map_singleton, List.sum_singleton]
  | more hx hrest ih =>
    rw [List.count_append, List.count_cons_of_ne (Ne.symm hb), hw _ (List.mem_cons_self ..) _ hx,
      ih fun x hx => hw x (List.mem_cons_of_mem _ hx), List.map_cons, List.sum_cons]

theorem items_last (h : item l = some (x, c :: r)) (hne : c ≠ sep) (n : ℕ) :
    items sep item (n + 1) l = some ([x], c :: r) := by
  rw [items, h]
  exact if_neg hne

theorem items_next (h : item l = some (x, sep :: r)) (n : ℕ) :
    items sep item (n + 1) l = (items sep item n r).map fun q => (x :: q.1, q.2) := by
  rw [items, h]
  exact if_pos rfl

theorem items_sound (h : Sound item R) (n : ℕ) : Sound (items sep item n) (Joined sep R) := by
  induction n with
  | zero =>
    intro l xs r hread
    cases hread
  | succ n ih =>
    intro l xs r hread
    have hsome := hread
    rw [items] at hsome
    rcases Option.bind_eq_some_iff.mp hsome with ⟨⟨x, s⟩, hitem, hrest⟩
    rcases h l x s hitem with ⟨t, ht, rfl⟩
    cases s with
    | nil =>
      cases hrest
      exact ⟨t, .one ht, rfl⟩
    | cons c s =>
      by_cases hc : c = sep
      · subst hc
        rw [items_next hitem] at hread
        rcases Option.map_eq_some_iff.mp hread with ⟨⟨ys, q⟩, hys, heq⟩
        cases heq
        rcases ih s ys q hys with ⟨u, hu, rfl⟩
        exact ⟨t ++ c :: u, .more ht hu, by rw [List.append_assoc, List.cons_append]⟩
      · rw [items_last hitem hc] at hread
        cases hread
        exact ⟨t, .one ht, rfl⟩

theorem items_complete (h : Complete item R follow) (hsep : follow sep) (hxs : Joined sep R xs t) {n : ℕ}
    (hn : xs.length ≤ n) (hc : follow c) (hne : c ≠ sep) (r : List α) :
    items sep item n (t ++ c :: r) = some (xs, c :: r) := by
  induction hxs generalizing n with
  | one hx =>
    cases n with
    | zero => exact absurd hn (by simp)
    | succ n => exact items_last (h _ _ c r hx hc) hne n
  | more hx hrest ih =>
    cases n with
    | zero => exact absurd hn (by simp)
    | succ n =>
      rw [List.append_assoc, List.cons_append, items_next (h _ _ sep _ hx hsep), ih (Nat.le_of_succ_le_succ hn)]
      rfl

end Ntopng.Lib.Escapes
