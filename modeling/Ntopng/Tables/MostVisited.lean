/-
  Ntopng.Tables.MostVisited — the lists of the most visited sites, which go through Redis
  (src/MostVisitedList.cpp; src/FrequentStringItems.cpp).

  `serializeDeserialize` saves the greatest counts of a list as a JSON text, and adds what is saved
  to a list. The key is made of the interface and the day; what tells the lists of an interface
  apart (`extra_info`, the host) is in the other keys only. A list without entries saves nothing, and
  leaves what is there. What has been read is deleted.

  Redis keeps what it is given, and answers. json-c and `std::sort` are parameters. The maps of the lists are
  those of `FrequentStringItems`; a text is what stands before its NUL.

  Proved (`restore_law`), for any lists on one day and any order of their calls:
  - what a list saves are its greatest counts, at most twice its size,
  - reading into an empty list gives what its own last call saved, and nothing that another list has
    saved, exactly if the key holds at each such reading what the last call of the same list
    has put there, or nothing where that call saved nothing.
-/

import Ntopng.Lib.Decimal
import Ntopng.Lib.Json
import Ntopng.Lib.Run
import Ntopng.Tables.Frequent

namespace Ntopng.Tables.MostVisited

open Ntopng.Lib Ntopng.Lib.Decimal Ntopng.Lib.OrdMap Ntopng.Lib.Run
open Ntopng.Tables.Frequent

abbrev Text := List Char

/-! ## What is outside -/

/-- What json-c prints of an object of integers, it parses. -/
structure JsonC where
  toJsonString : Json → Text
  tokenerParse : Text → Option Json
  ne_nil : ∀ j, toJsonString j ≠ []
  parse_object : ∀ ms : List (String × Int64), (keys ms).Nodup →
    tokenerParse (toJsonString (.object (ms.map fun e => (e.1, .int e.2)))) = some (.object (ms.map fun e => (e.1, .int e.2)))

/-- `std::sort` by the second components, the greatest first. -/
structure SortDown (K : Type) where
  sort : Items K → Items K
  perm : ∀ v, (sort v).Perm v
  sorted : ∀ v, (sort v).Pairwise fun a b => b.2 ≤ a.2

/-- `tm_mday`. -/
structure Day where
  mday : ℕ
  le : mday ≤ 31

/-! ## The code -/

def NTOPNG_CACHE_PREFIX : Text := "ntopng.cache".toList

def HASHKEY_TOP_SITES_SERIALIZATION_KEY : Text := ".serialized_current_top_sites.".toList

def CONST_MAX_LEN_REDIS_VALUE : ℕ := 2 * 65526

/-- What `snprintf` leaves in a buffer of 64 bytes. -/
def snprintf64 (s : Text) : Text := s.take 63

/-- The whole of `iface_id`, as `%d` has it. -/
def signed (ifaceId : UInt32) : ℤ := ifaceId.toInt32.toInt

section

variable (infoSubject extraInfo : Text) (ifaceId : UInt32) (mday : Day) (hour : ℕ)

def redisHourKey : Text :=
  snprintf64 (extraInfo ++ udec ifaceId.toNat ++ '_' :: udec mday.mday ++ '_' :: udec hour)

def redisDailyKey : Text := snprintf64 (extraInfo ++ udec ifaceId.toNat ++ '_' :: udec mday.mday)

def redisKeyCurrentData : Text :=
  snprintf64 (NTOPNG_CACHE_PREFIX ++ infoSubject ++ idec (signed ifaceId) ++ '_' :: udec mday.mday)

end

structure Redis where
  strings : Text → Option Text
  hourKeys : List Text
  dayKeys : List Text

namespace Redis

variable (r : Redis) (key value : Text)

def set : Redis := { r with strings := Function.update r.strings key (some value) }

def del : Redis := { r with strings := Function.update r.strings key none }

def lpush (hour day : Text) : Redis := { r with hourKeys := hour :: r.hourKeys, dayKeys := day :: r.dayKeys }

def lrem (hour day : Text) : Redis :=
  { r with hourKeys := r.hourKeys.filter (· ≠ hour), dayKeys := r.dayKeys.filter (· ≠ day) }

/-- `STRLEN` is 0 also where there is nothing. -/
def len : ℕ := ((r.strings key).getD []).length

/-- Into a buffer of `rspLen` bytes. -/
def get (rspLen : ℕ) : Option Text := (r.strings key).map (·.take (rspLen - 1))

end Redis

section Model

variable (C : JsonC) (S : StdSort String) (D : SortDown String)

/-- The entries that `json` prints. -/
def top (maxNumItems : UInt32) (q : Items String) : Items String := (D.sort q).take maxNumItems.toNat

def json (maxNumItems : UInt32) (q : Items String) : Text :=
  C.toJsonString (.object ((top D maxNumItems q).foldl (fun ms x => addMember ms x.1 (.int (Int64.ofNat x.2))) []))

/-- A member of the parsed object. -/
def incrVisitedData (maxNumItems : UInt32) (t : Table String) (e : String × Json) : Table String :=
  match e.2 with
  | .int v => step S maxNumItems t ⟨e.1, v.toUInt64.toUInt32⟩
  | _ => t

def deserializeTopData (maxNumItems : UInt32) (r : Redis) (key : Text) (t : Table String) : Table String :=
  let jsonLen := if r.len key = 0 then CONST_MAX_LEN_REDIS_VALUE else r.len key + 8
  match r.get key jsonLen with
  | none => t
  | some json =>
    if json = [] then t
    else
      match C.tokenerParse json with
      | some (.object ms) => ms.foldl (incrVisitedData S maxNumItems) t
      | _ => t

/-- What tells a list from the others. -/
structure Ident where
  ifaceId : UInt32
  extraInfo : Text
  deriving DecidableEq

structure Restore where
  id : Ident
  before : Table String
  after : Table String
  /-- What the last serialization of the list has saved. -/
  saved : Items String
  /-- Whose entries the key held. -/
  holder : Option Ident

structure State where
  topData : Ident → Table String
  redis : Redis
  /-- The list at its last serialization, and what was saved of it. -/
  listed : Ident → Items String
  saved : Ident → Items String
  /-- The entries that the key of an interface holds, and the list that they come from. -/
  held : UInt32 → Option (Ident × Items String)
  /-- The last deserialization. -/
  restored : Option Restore

inductive Ev where
  | add (id : Ident) (key : String) (value : UInt32)
  /-- `clear`, or the list is made anew. -/
  | clear (id : Ident)
  | serialize (id : Ident) (hour : ℕ)
  | deserialize (id : Ident) (hour : ℕ)

variable (maxNumItems : Ident → UInt32) (mday : Day)

/-- Whose entries the key of the interface holds. -/
def State.holder (s : State) (ifaceId : UInt32) : Option Ident := (s.held ifaceId).map (·.1)

def currentKey (id : Ident) : Text := redisKeyCurrentData HASHKEY_TOP_SITES_SERIALIZATION_KEY id.ifaceId mday

def serialize (s : State) (id : Ident) (hour : ℕ) : State :=
  let r := s.redis.lpush (redisHourKey id.extraInfo id.ifaceId mday hour) (redisDailyKey id.extraInfo id.ifaceId mday)
  let q := (s.topData id).q
  let saved := if q = [] then [] else top D (2 * maxNumItems id) q
  { s with
    redis := if q = [] then r else r.set (currentKey mday id) (json C D (2 * maxNumItems id) q)
    listed := Function.update s.listed id q
    saved := Function.update s.saved id saved
    held := if q = [] then s.held
      else Function.update s.held id.ifaceId (if saved = [] then none else some (id, saved)) }

def deserialize (s : State) (id : Ident) (hour : ℕ) : State :=
  let r := s.redis.lrem (redisHourKey id.extraInfo id.ifaceId mday hour) (redisDailyKey id.extraInfo id.ifaceId mday)
  let after := deserializeTopData C S (maxNumItems id) r (currentKey mday id) (s.topData id)
  { s with
    topData := Function.update s.topData id after
    redis := r.del (currentKey mday id)
    held := Function.update s.held id.ifaceId none
    restored := some ⟨id, s.topData id, after, s.saved id, s.holder id.ifaceId⟩ }

def act (s : State) : Ev → State
  | .add id key value =>
    { s with topData := Function.update s.topData id (step S (maxNumItems id) (s.topData id) ⟨key, value⟩) }
  | .clear id => { s with topData := Function.update s.topData id start }
  | .serialize id hour => serialize C D maxNumItems mday s id hour
  | .deserialize id hour => deserialize C S maxNumItems mday s id hour

def init : State := ⟨fun _ => start, ⟨fun _ => none, [], []⟩, fun _ => [], fun _ => [], fun _ => none, none⟩

end Model

/-! ## The law -/

/-- The greatest counts, as many as there may be. -/
def Greatest (n : ℕ) (q saved : Items String) : Prop :=
  ∃ rest, q.Perm (saved ++ rest) ∧ saved.length = min n q.length ∧ ∀ a ∈ saved, ∀ b ∈ rest, b.2 ≤ a.2

def Fresh (t : Table String) : Prop := t.q = [] ∧ t.fault = false

structure Restored (r : Restore) : Prop where
  entries : r.after.q.Perm r.saved
  own : ∀ o ∈ r.holder, o = r.id

structure Law (maxNumItems : Ident → UInt32) (s : State) : Prop where
  saved : ∀ id, Greatest (2 * maxNumItems id).toNat (s.listed id) (s.saved id)
  restored : ∀ r ∈ s.restored, Fresh r.before → Restored r

/-- A reading into an empty list finds what the last serialization of the list has put there. -/
def Ok (s : State) : Ev → Prop
  | .deserialize id _ => Fresh (s.topData id) → s.holder id.ifaceId = if s.saved id = [] then none else some id
  | _ => True

/-! ## The keys -/

section

variable {mday : Day} {id id' : Ident}

theorem signed_inj {a b : UInt32} : signed a = signed b ↔ a = b := by
  rw [signed, signed, Int32.toInt_inj]
  constructor
  · intro h
    have := congrArg Int32.toUInt32 h
    simpa using this
  · intro h
    rw [h]

theorem length_mday : (udec mday.mday).length ≤ 2 := length_udec (by decide) (by have := mday.le; omega)

theorem length_signed (a : UInt32) : (idec (signed a)).length ≤ 11 := by
  have hlo := a.toInt32.le_toInt
  have hhi := a.toInt32.toInt_lt
  refine length_idec (k := 10) (by decide) ?_
  rw [signed]
  omega

/-- The key fits in its buffer, and tells the interfaces apart. -/
theorem currentKey_eq (mday : Day) (id : Ident) : currentKey mday id =
    NTOPNG_CACHE_PREFIX ++ HASHKEY_TOP_SITES_SERIALIZATION_KEY ++ idec (signed id.ifaceId) ++ '_' :: udec mday.mday := by
  have hday := @length_mday mday
  have hiface := length_signed id.ifaceId
  rw [currentKey, redisKeyCurrentData, snprintf64]
  refine List.take_of_length_le ?_
  have hprefix : (NTOPNG_CACHE_PREFIX ++ HASHKEY_TOP_SITES_SERIALIZATION_KEY).length = 42 := by decide
  rw [List.length_append, List.length_append, hprefix, List.length_cons]
  omega

theorem currentKey_inj : currentKey mday id = currentKey mday id' ↔ id.ifaceId = id'.ifaceId := by
  constructor
  · intro h
    rw [currentKey_eq, currentKey_eq, List.append_assoc, List.append_assoc _ (idec (signed id'.ifaceId))] at h
    have hrest := List.append_cancel_left h
    exact signed_inj.mp (idec_append_inj (by decide) (by decide) hrest).1
  · intro h
    rw [currentKey, currentKey, h]

end

/-! ## What is saved -/

section

variable {D : SortDown String} {n : UInt32} {q : Items String}

theorem length_top : (top D n q).length = min n.toNat q.length := by
  rw [top, List.length_take, (D.perm q).length_eq]

theorem top_subset {x : String × ℕ} (h : x ∈ top D n q) : x ∈ q := (D.perm q).mem_iff.mp (List.mem_of_mem_take h)

theorem top_distinct (h : q.Distinct) : (top D n q).Distinct := by
  have hsort : (D.sort q).Distinct := ((D.perm q).map Prod.fst).nodup_iff.mpr h
  exact hsort.sublist ((List.take_sublist ..).map _)

theorem top_greatest : Greatest n.toNat q (top D n q) := by
  refine ⟨(D.sort q).drop n.toNat, ?_, length_top, ?_⟩
  · rw [top, List.take_append_drop]
    exact (D.perm q).symm
  · intro a ha b hb
    have hsorted := D.sorted q
    rw [← List.take_append_drop n.toNat (D.sort q)] at hsorted
    exact (List.pairwise_append.mp hsorted).2.2 a ha b hb

theorem greatest_nil (k : ℕ) : Greatest k [] [] := ⟨[], List.Perm.refl _, by simp, by simp⟩

/-- The text of some entries. -/
def print (C : JsonC) (items : Items String) : Text :=
  C.toJsonString (.object (items.map fun x => (x.1, .int (Int64.ofNat x.2))))

theorem json_eq (C : JsonC) (h : q.Distinct) : json C D n q = print C (top D n q) := by
  have hdistinct : (keys ((top D n q).map fun x => (x.1, Json.int (Int64.ofNat x.2)))).Nodup := by
    have := @top_distinct D n q h
    rwa [keys, List.map_map]
  have hfold := @foldl_addMember [] ((top D n q).map fun x => (x.1, Json.int (Int64.ofNat x.2)))
    (by rwa [keys, List.map_nil, List.nil_append])
  rw [List.foldl_map, List.nil_append] at hfold
  rw [json, print, ← hfold]

end

/-! ## What is read -/

section

variable {C : JsonC} {S : StdSort String} {n : UInt32} {t : Table String}

structure Sound (t : Table String) : Prop where
  distinct : t.q.Distinct
  small : ∀ x ∈ t.q, x.2 < 2 ^ 32

theorem Sound.start : Sound start := ⟨List.nodup_nil, fun _ h => absurd h List.not_mem_nil⟩

theorem prune_sublist {q q' : Items String} {k : ℕ} (h : q.prune S k = some q') : q'.Sublist q := by
  rw [Items.prune] at h
  split at h
  · rw [← Option.some.inj h, Items.foldl_erase]
    exact List.filter_sublist
  · cases h

theorem Sound.put {q : Items String} {e : Frequent.Ev String} (hsound : Sound t) (hsub : q.Sublist t.q)
    (hnew : e.key ∉ t.q.map (·.1)) : (q.insert e.key e.value.toNat).Distinct ∧
      ∀ x ∈ q.insert e.key e.value.toNat, x.2 < 2 ^ 32 := by
  refine ⟨Items.distinct_insert (hsound.distinct.sublist (hsub.map _)) fun h => hnew ((hsub.map _).subset h), ?_⟩
  intro x hx
  rcases Items.mem_insert.mp hx with rfl | hx
  · exact e.value.toNat_lt
  · exact hsound.small x (hsub.subset hx)

theorem Sound.update {e : Frequent.Ev String} (h : Sound t) : Sound (t.put (t.q.update e.key e.value.toNat) e) := by
  refine ⟨?_, ?_⟩
  · show ((t.q.update e.key e.value.toNat).map _).Nodup
    rw [Items.keys_update]
    exact h.distinct
  · intro x hx
    rcases Items.mem_update.mp hx with ⟨-, hx⟩ | ⟨-, d, -, hv⟩
    · exact h.small x hx
    · rw [hv]
      exact Nat.mod_lt _ (Nat.two_pow_pos 32)

theorem Sound.step (h : Sound t) (e : Frequent.Ev String) : Sound (step S n t e) := by
  cases hfault : t.fault with
  | true =>
    rw [Frequent.step, if_pos hfault]
    exact h
  | false =>
    cases hfind : t.q.find e.key with
    | some c =>
      rw [step_found hfault hfind]
      exact h.update
    | none =>
      have hnew := Items.find_eq_none.mp hfind
      by_cases hbig : maxItemsThreshold n < t.q.length
      · cases hprune : t.q.prune S n.toNat with
        | none =>
          have hstep : Frequent.step S n t e = { t with fault := true } := by
            rw [Frequent.step, hfault, if_neg Bool.false_ne_true, hfind]
            refine (if_pos hbig).trans ?_
            rw [hprune]
          rw [hstep]
          exact ⟨h.distinct, h.small⟩
        | some q =>
          rw [step_pruned hfault hfind hbig hprune]
          have hput := Sound.put h (prune_sublist hprune) hnew
          exact ⟨hput.1, hput.2⟩
      · rw [step_small hfault hfind hbig]
        have hput := Sound.put h (List.Sublist.refl _) hnew
        exact ⟨hput.1, hput.2⟩

theorem Sound.foldl (h : Sound t) (ms : List (String × Json)) : Sound (ms.foldl (incrVisitedData S n) t) := by
  induction ms generalizing t with
  | nil => exact h
  | cons e ms ih =>
    refine ih ?_
    rw [incrVisitedData]
    split
    · exact h.step _
    · exact h

theorem Sound.deserializeTopData (h : Sound t) (r : Redis) (key : Text) : Sound (deserializeTopData C S n r key t) := by
  rw [MostVisited.deserializeTopData]
  split
  · exact h
  · split
    · exact h
    · split
      · exact h.foldl _
      · exact h

theorem toUInt32_ofNat {v : ℕ} (h : v < 2 ^ 32) : (Int64.ofNat v).toUInt64.toUInt32.toNat = v := by
  have hv : (Int64.ofNat v).toUInt64.toNat = v := UInt64.toNat_ofNat_of_lt' (by rw [UInt64.size]; omega)
  rw [UInt64.toNat_toUInt32, hv, Nat.mod_eq_of_lt h]

/-- Entries that the list does not have, and has room for, are added as they are. -/
theorem foldl_incr (l : Items String) (hfault : t.fault = false) (hdistinct : (t.q ++ l).Distinct)
    (hroom : (t.q ++ l).length ≤ maxItemsThreshold n) (hsmall : ∀ x ∈ l, x.2 < 2 ^ 32) :
    ((l.map fun x => (x.1, Json.int (Int64.ofNat x.2))).foldl (incrVisitedData S n) t).q.Perm (t.q ++ l) := by
  induction l generalizing t with
  | nil => simp
  | cons x l ih =>
    have hnew : x.1 ∉ t.q.map (·.1) := by
      rw [Items.Distinct, List.map_append, List.map_cons] at hdistinct
      exact fun h => (List.nodup_append.mp hdistinct).2.2 _ h _ (List.mem_cons_self ..) rfl
    rw [List.length_append, List.length_cons] at hroom
    have hx := toUInt32_ofNat (hsmall x (List.mem_cons_self ..))
    set e : Frequent.Ev String := ⟨x.1, (Int64.ofNat x.2).toUInt64.toUInt32⟩ with he
    have hstep : step S n t e = t.put (t.q.insert e.key e.value.toNat) e :=
      step_small hfault (Items.find_eq_none.mpr hnew) (by omega)
    have hq : (step S n t e).q.Perm (x :: t.q) := by
      rw [hstep]
      show (t.q.insert x.1 (Int64.ofNat x.2).toUInt64.toUInt32.toNat).Perm _
      rw [hx]
      exact Items.perm_insert
    have happ : ((step S n t e).q ++ l).Perm (t.q ++ x :: l) := (hq.append_right l).trans List.perm_middle.symm
    rw [List.map_cons, List.foldl_cons]
    refine (ih (t := step S n t e) ?_ ?_ ?_ ?_).trans happ
    · rw [hstep]
      exact hfault
    · exact (happ.map Prod.fst).nodup_iff.mpr hdistinct
    · rw [happ.length_eq, List.length_append, List.length_cons]
      exact hroom
    · exact fun y hy => hsmall y (List.mem_cons_of_mem _ hy)

theorem read_none {r : Redis} {key : Text} (h : r.strings key = none) : deserializeTopData C S n r key t = t := by
  rw [deserializeTopData, Redis.get, h]
  rfl

/-- The buffer holds the whole text. -/
theorem read_print {r : Redis} {key : Text} {items : Items String} (h : r.strings key = some (print C items))
    (hdistinct : items.Distinct) : deserializeTopData C S n r key t =
      (items.map fun x => (x.1, Json.int (Int64.ofNat x.2))).foldl (incrVisitedData S n) t := by
  have hne : print C items ≠ [] := C.ne_nil _
  have hparse : C.tokenerParse (print C items) = some (.object (items.map fun x => (x.1, .int (Int64.ofNat x.2)))) := by
    have hobject := C.parse_object (items.map fun x => (x.1, Int64.ofNat x.2)) (by rwa [keys, List.map_map])
    rw [List.map_map] at hobject
    exact hobject
  have hlen : r.len key = (print C items).length := by rw [Redis.len, h, Option.getD_some]
  have hpos : (print C items).length ≠ 0 := fun h0 => hne (List.length_eq_zero_iff.mp h0)
  have hget : r.get key (r.len key + 8) = some (print C items) := by
    rw [Redis.get, h, Option.map_some, List.take_of_length_le (by omega)]
  rw [deserializeTopData, if_neg (by rw [hlen]; exact hpos), hget]
  dsimp only
  rw [if_neg hne, hparse]

end

/-! ## A call -/

section

variable {C : JsonC} {S : StdSort String} {D : SortDown String} {maxNumItems : Ident → UInt32} {mday : Day}
  {s : State} {id : Ident} {hour : ℕ}

/-- The text under the key of an interface, by whose entries it is. -/
def Holds (C : JsonC) (maxNumItems : Ident → UInt32) (saved : Ident → Items String) (ifaceId : UInt32)
    (text : Option Text) : Option (Ident × Items String) → Prop
  | none => text = none ∨ text = some (print C [])
  | some (o, items) => text = some (print C items) ∧ items ≠ [] ∧ items.Distinct ∧ (∀ x ∈ items, x.2 < 2 ^ 32) ∧
      items.length ≤ maxItemsThreshold (maxNumItems o) ∧ o.ifaceId = ifaceId ∧ (saved o = items ∨ saved o = [])

structure Inv (C : JsonC) (maxNumItems : Ident → UInt32) (mday : Day) (s : State) : Prop where
  law : Law maxNumItems s
  sound : ∀ id, Sound (s.topData id)
  holds : ∀ id, Holds C maxNumItems s.saved id.ifaceId (s.redis.strings (currentKey mday id)) (s.held id.ifaceId)

theorem threshold_eq (n : UInt32) : maxItemsThreshold n = (2 * n).toNat := by
  rw [maxItemsThreshold, UInt32.toNat_mul]
  rfl

theorem inv_init : Inv C maxNumItems mday init :=
  ⟨⟨fun _ => greatest_nil _, fun _ h => absurd h (Option.not_mem_none _)⟩, fun _ => Sound.start, fun _ => .inl rfl⟩

theorem inv_list (h : Inv C maxNumItems mday s) {t : Table String} (ht : Sound t) (id : Ident) :
    Inv C maxNumItems mday { s with topData := Function.update s.topData id t } := by
  refine ⟨⟨h.law.saved, h.law.restored⟩, ?_, h.holds⟩
  intro id'
  show Sound (Function.update s.topData id t id')
  by_cases hid : id' = id
  · rw [hid, Function.update_self]
    exact ht
  · rw [Function.update_of_ne hid]
    exact h.sound id'

/-- What the lists of other interfaces have saved does not matter to the key. -/
theorem Holds.update {saved : Ident → Items String} {ifaceId : UInt32} {text : Option Text}
    {held : Option (Ident × Items String)} {items : Items String} (h : Holds C maxNumItems saved ifaceId text held)
    (hid : id.ifaceId = ifaceId → items = []) : Holds C maxNumItems (Function.update saved id items) ifaceId text held := by
  rcases held with _ | ⟨o, kept⟩
  · exact h
  · rcases h with ⟨htext, hne, hdistinct, hsmall, hlen, ho, hsaved⟩
    refine ⟨htext, hne, hdistinct, hsmall, hlen, ho, ?_⟩
    by_cases hoid : o = id
    · subst hoid
      rw [Function.update_self]
      exact .inr (hid ho)
    · rw [Function.update_of_ne hoid]
      exact hsaved

theorem serialize_nil (hq : (s.topData id).q = []) : serialize C D maxNumItems mday s id hour =
    { s with
      redis := s.redis.lpush (redisHourKey id.extraInfo id.ifaceId mday hour) (redisDailyKey id.extraInfo id.ifaceId mday)
      listed := Function.update s.listed id []
      saved := Function.update s.saved id [] } := by
  simp [serialize, hq]

theorem serialize_entries (hsound : Sound (s.topData id)) {q : Items String} (hq : (s.topData id).q = q) (hne : q ≠ []) :
    serialize C D maxNumItems mday s id hour =
      { s with
        redis := (s.redis.lpush (redisHourKey id.extraInfo id.ifaceId mday hour)
          (redisDailyKey id.extraInfo id.ifaceId mday)).set (currentKey mday id) (print C (top D (2 * maxNumItems id) q))
        listed := Function.update s.listed id q
        saved := Function.update s.saved id (top D (2 * maxNumItems id) q)
        held := Function.update s.held id.ifaceId
          (if top D (2 * maxNumItems id) q = [] then none else some (id, top D (2 * maxNumItems id) q)) } := by
  have hjson : json C D (2 * maxNumItems id) q = print C (top D (2 * maxNumItems id) q) := json_eq C (hq ▸ hsound.distinct)
  simp [serialize, hq, hne, hjson]

/-- A law of all lists, after one has been saved. -/
theorem greatest_update {k : Ident → ℕ} {listed saved : Ident → Items String} {q items : Items String}
    (h : ∀ id, Greatest (k id) (listed id) (saved id)) (hid : Greatest (k id) q items) (id' : Ident) :
    Greatest (k id') (Function.update listed id q id') (Function.update saved id items id') := by
  by_cases heq : id' = id
  · rw [heq, Function.update_self, Function.update_self]
    exact hid
  · rw [Function.update_of_ne heq, Function.update_of_ne heq]
    exact h id'

theorem inv_serialize_nil (h : Inv C maxNumItems mday s) (hq : (s.topData id).q = []) :
    Inv C maxNumItems mday (serialize C D maxNumItems mday s id hour) := by
  rw [serialize_nil hq]
  exact ⟨⟨greatest_update h.law.saved (greatest_nil _), h.law.restored⟩, h.sound, fun id' => (h.holds id').update fun _ => rfl⟩

theorem inv_serialize_entries (h : Inv C maxNumItems mday s) {q : Items String} (hq : (s.topData id).q = q) (hne : q ≠ []) :
    Inv C maxNumItems mday (serialize C D maxNumItems mday s id hour) := by
  have hsound := h.sound id
  rw [serialize_entries hsound hq hne]
  refine ⟨⟨greatest_update h.law.saved top_greatest, h.law.restored⟩, h.sound, ?_⟩
  intro id'
  have hold := h.holds id'
  set saved := top D (2 * maxNumItems id) q with hsaved
  show Holds C maxNumItems _ _ (Function.update s.redis.strings (currentKey mday id) _ (currentKey mday id'))
    (Function.update s.held id.ifaceId _ id'.ifaceId)
  by_cases hiface : id'.ifaceId = id.ifaceId
  · rw [currentKey_inj.mpr hiface, Function.update_self, hiface, Function.update_self]
    by_cases hempty : saved = []
    · rw [if_pos hempty, hempty]
      exact .inr rfl
    · rw [if_neg hempty]
      refine ⟨rfl, hempty, top_distinct (hq ▸ hsound.distinct), ?_, ?_, rfl, .inl (Function.update_self ..)⟩
      · intro x hx
        exact hsound.small x (hq ▸ top_subset hx)
      · rw [hsaved, length_top, threshold_eq]
        exact min_le_left _ _
  · rw [Function.update_of_ne fun hk => hiface (currentKey_inj.mp hk), Function.update_of_ne hiface]
    exact hold.update fun hid => absurd hid.symm hiface

theorem inv_serialize (h : Inv C maxNumItems mday s) :
    Inv C maxNumItems mday (serialize C D maxNumItems mday s id hour) := by
  by_cases hq : (s.topData id).q = []
  · exact inv_serialize_nil h hq
  · exact inv_serialize_entries h rfl hq

/-- What a reading into an empty list adds. -/
theorem read_fresh (h : Inv C maxNumItems mday s) (hfresh : Fresh (s.topData id)) {r : Redis}
    (hr : r.strings = s.redis.strings) :
    (s.held id.ifaceId = none →
      (deserializeTopData C S (maxNumItems id) r (currentKey mday id) (s.topData id)).q = []) ∧
    ∀ items, s.held id.ifaceId = some (id, items) →
      (deserializeTopData C S (maxNumItems id) r (currentKey mday id) (s.topData id)).q.Perm items := by
  have hholds := h.holds id
  rw [← hr] at hholds
  constructor
  · intro hnone
    rw [hnone] at hholds
    rcases hholds with htext | htext
    · rw [read_none htext]
      exact hfresh.1
    · rw [read_print htext List.nodup_nil]
      exact hfresh.1
  · intro items hsome
    rw [hsome] at hholds
    rcases hholds with ⟨htext, -, hdistinct, hsmall, hlen, -⟩
    rw [read_print htext hdistinct]
    have hperm := foldl_incr (S := S) (n := maxNumItems id) (t := s.topData id) items hfresh.2
      (by rwa [hfresh.1, List.nil_append]) (by rwa [hfresh.1, List.nil_append]) hsmall
    rwa [hfresh.1, List.nil_append] at hperm

/-- The record of a deserialization. -/
def restoreOf (C : JsonC) (S : StdSort String) (maxNumItems : Ident → UInt32) (mday : Day) (s : State) (id : Ident) (hour : ℕ) :
    Restore :=
  ⟨id, s.topData id,
    deserializeTopData C S (maxNumItems id)
      (s.redis.lrem (redisHourKey id.extraInfo id.ifaceId mday hour) (redisDailyKey id.extraInfo id.ifaceId mday))
      (currentKey mday id) (s.topData id),
    s.saved id, s.holder id.ifaceId⟩

theorem restoreOf_iff (h : Inv C maxNumItems mday s) (hfresh : Fresh (s.topData id)) :
    Restored (restoreOf C S maxNumItems mday s id hour) ↔
      s.holder id.ifaceId = if s.saved id = [] then none else some id := by
  set r := s.redis.lrem (redisHourKey id.extraInfo id.ifaceId mday hour) (redisDailyKey id.extraInfo id.ifaceId mday)
  set after := deserializeTopData C S (maxNumItems id) r (currentKey mday id) (s.topData id) with hafter
  have hread := read_fresh (S := S) (r := r) h hfresh rfl
  have hrestored : Restored (restoreOf C S maxNumItems mday s id hour) ↔
      after.q.Perm (s.saved id) ∧ ∀ o ∈ s.holder id.ifaceId, o = id := by
    exact ⟨fun hr => ⟨hr.entries, hr.own⟩, fun hr => ⟨hr.1, hr.2⟩⟩
  rw [hrestored]
  have hholds := h.holds id
  rcases hheld : s.held id.ifaceId with _ | ⟨o, items⟩
  · have hholder : s.holder id.ifaceId = none := by rw [State.holder, hheld, Option.map_none]
    rw [hholder, hread.1 hheld]
    by_cases hs : s.saved id = []
    · simp [hs]
    · simp [hs]
  · have hholder : s.holder id.ifaceId = some o := by rw [State.holder, hheld, Option.map_some]
    rw [hheld] at hholds
    rcases hholds with ⟨-, hne, -, -, -, -, hsaved⟩
    rw [hholder]
    constructor
    · intro hr
      have ho : o = id := hr.2 o rfl
      subst ho
      have hperm := (hread.2 items hheld).symm.trans hr.1
      rw [if_neg]
      intro hs
      rw [hs] at hperm
      exact hne hperm.eq_nil
    · intro hr
      by_cases hs : s.saved id = []
      · rw [if_pos hs] at hr
        cases hr
      · rw [if_neg hs] at hr
        have ho : o = id := Option.some.inj hr
        subst ho
        refine ⟨?_, fun o' ho' => (Option.some.inj ho').symm⟩
        rcases hsaved with hsaved | hsaved
        · rw [hsaved]
          exact hread.2 items hheld
        · exact absurd hsaved hs

theorem inv_deserialize (h : Inv C maxNumItems mday s) (hok : Ok s (.deserialize id hour)) :
    Inv C maxNumItems mday (deserialize C S maxNumItems mday s id hour) := by
  refine ⟨⟨h.law.saved, ?_⟩, ?_, ?_⟩
  · intro r hr hfresh
    have hrec : restoreOf C S maxNumItems mday s id hour = r := Option.some.inj hr
    subst hrec
    exact (restoreOf_iff h hfresh).mpr (hok hfresh)
  · intro id'
    show Sound (Function.update s.topData id _ id')
    by_cases hid : id' = id
    · rw [hid, Function.update_self]
      exact (h.sound id).deserializeTopData _ _
    · rw [Function.update_of_ne hid]
      exact h.sound id'
  · intro id'
    show Holds C maxNumItems s.saved id'.ifaceId (Function.update s.redis.strings (currentKey mday id) none (currentKey mday id'))
      (Function.update s.held id.ifaceId none id'.ifaceId)
    by_cases hiface : id'.ifaceId = id.ifaceId
    · rw [hiface, Function.update_self, currentKey_inj.mpr hiface, Function.update_self]
      exact .inl rfl
    · rw [Function.update_of_ne hiface, Function.update_of_ne fun hk => hiface (currentKey_inj.mp hk)]
      exact h.holds id'

theorem inv_act (s : State) (e : Ev) (h : Inv C maxNumItems mday s) (hok : Ok s e) :
    Inv C maxNumItems mday (act C S D maxNumItems mday s e) := by
  cases e with
  | add id key value => exact inv_list h ((h.sound id).step _) id
  | clear id => exact inv_list h Sound.start id
  | serialize id hour => exact inv_serialize h
  | deserialize id hour => exact inv_deserialize h hok

theorem not_law_act (s : State) (e : Ev) (h : Inv C maxNumItems mday s) (hbad : ¬ Ok s e) :
    ¬ Law maxNumItems (act C S D maxNumItems mday s e) := by
  cases e with
  | add id key value => exact absurd trivial hbad
  | clear id => exact absurd trivial hbad
  | serialize id hour => exact absurd trivial hbad
  | deserialize id hour =>
    intro hlaw
    refine hbad fun hfresh => ?_
    have hrestored : Restored (restoreOf C S maxNumItems mday s id hour) := hlaw.restored _ rfl hfresh
    exact (restoreOf_iff h hfresh).mp hrestored

end

/-! ## Runs -/

/-- Reading into an empty list gives what the list has saved, exactly if the key holds that. -/
theorem restore_law (C : JsonC) (S : StdSort String) (D : SortDown String) (maxNumItems : Ident → UInt32) (mday : Day)
    (es : List Ev) : Always (act C S D maxNumItems mday) (Law maxNumItems) init es ↔
      Along (act C S D maxNumItems mday) Ok init es :=
  always_iff_along _ inv_act (fun _ h => h.law) not_law_act inv_init

/-! ## A host and its interface -/

def escape (c : Char) : Text := if c = '"' ∨ c = '\\' ∨ c = '/' then ['\\', c] else [c]

def member (e : String × Int64) : Text := '"' :: e.1.toList.flatMap escape ++ '"' :: ':' :: ' ' :: idec e.2.toInt

def members : List (String × Int64) → Text
  | [] => [' ', '}']
  | e :: ms => ',' :: ' ' :: member e ++ members ms

def objectText : List (String × Int64) → Text
  | [] => ['{', ' ', '}']
  | e :: ms => '{' :: ' ' :: member e ++ members ms

theorem escape_append_inj {s t r q : Text} (h : s.flatMap escape ++ '"' :: r = t.flatMap escape ++ '"' :: q) : s = t ∧ r = q := by
  induction s generalizing t with
  | nil =>
    cases t with
    | nil => exact ⟨rfl, (List.cons.inj h).2⟩
    | cons d t =>
      rw [List.flatMap_nil, List.flatMap_cons, escape] at h
      split at h
      · exact absurd (List.cons.inj h).1 (by decide)
      · rename_i hd
        exact absurd (List.cons.inj h).1.symm fun hq => hd (.inl hq)
  | cons c s ih =>
    cases t with
    | nil =>
      rw [List.flatMap_nil, List.flatMap_cons, escape] at h
      split at h
      · exact absurd (List.cons.inj h).1 (by decide)
      · rename_i hc
        exact absurd (List.cons.inj h).1 fun hq => hc (.inl hq)
    | cons d t =>
      rw [List.flatMap_cons, List.flatMap_cons, escape, escape] at h
      by_cases hc : c = '"' ∨ c = '\\' ∨ c = '/'
      · by_cases hd : d = '"' ∨ d = '\\' ∨ d = '/'
        · rw [if_pos hc, if_pos hd] at h
          rcases List.cons.inj (List.cons.inj h).2 with ⟨hcd, hrest⟩
          rcases ih hrest with ⟨hst, hrq⟩
          exact ⟨by rw [hcd, hst], hrq⟩
        · rw [if_pos hc, if_neg hd] at h
          exact absurd (List.cons.inj h).1.symm fun hq => hd (.inr (.inl hq))
      · by_cases hd : d = '"' ∨ d = '\\' ∨ d = '/'
        · rw [if_neg hc, if_pos hd] at h
          exact absurd (List.cons.inj h).1 fun hq => hc (.inr (.inl hq))
        · rw [if_neg hc, if_neg hd] at h
          rcases List.cons.inj h with ⟨hcd, hrest⟩
          rcases ih hrest with ⟨hst, hrq⟩
          exact ⟨by rw [hcd, hst], hrq⟩

theorem member_append_inj {e f : String × Int64} {a b : Char} {r q : Text} (ha : a ≠ '-' ∧ a.isDigit = false)
    (hb : b ≠ '-' ∧ b.isDigit = false) (h : member e ++ a :: r = member f ++ b :: q) : e = f ∧ a :: r = b :: q := by
  have hquoted : e.1.toList.flatMap escape ++ '"' :: ':' :: ' ' :: (idec e.2.toInt ++ a :: r) =
      f.1.toList.flatMap escape ++ '"' :: ':' :: ' ' :: (idec f.2.toInt ++ b :: q) := by
    simpa [member] using h
  rcases escape_append_inj hquoted with ⟨hkey, hvalue⟩
  rcases idec_append_inj ha hb (List.cons.inj (List.cons.inj hvalue).2).2 with ⟨hint, hrest⟩
  exact ⟨Prod.ext (String.toList_inj.mp hkey) (Int64.toInt_inj.mp hint), hrest⟩

theorem members_stop (ms : List (String × Int64)) :
    ∃ a r, members ms = a :: r ∧ a ≠ '-' ∧ a.isDigit = false := by
  cases ms with
  | nil => exact ⟨' ', ['}'], rfl, by decide, by decide⟩
  | cons e ms => exact ⟨',', ' ' :: member e ++ members ms, rfl, by decide, by decide⟩

theorem member_members_inj {e f : String × Int64} {ms ns : List (String × Int64)}
    (h : member e ++ members ms = member f ++ members ns) : e = f ∧ members ms = members ns := by
  rcases members_stop ms with ⟨a, r, hms, ha⟩
  rcases members_stop ns with ⟨b, q, hns, hb⟩
  rw [hms, hns] at h ⊢
  exact member_append_inj ha hb h

theorem members_inj {ms ns : List (String × Int64)} (h : members ms = members ns) : ms = ns := by
  induction ms generalizing ns with
  | nil =>
    cases ns with
    | nil => rfl
    | cons f ns => exact absurd (List.cons.inj h).1 (by decide)
  | cons e ms ih =>
    cases ns with
    | nil => exact absurd (List.cons.inj h).1 (by decide)
    | cons f ns =>
      rcases member_members_inj (List.cons.inj (List.cons.inj h).2).2 with ⟨hef, hrest⟩
      rw [hef, ih hrest]

theorem objectText_inj {ms ns : List (String × Int64)} (h : objectText ms = objectText ns) : ms = ns := by
  cases ms with
  | nil =>
    cases ns with
    | nil => rfl
    | cons f ns => exact absurd (List.cons.inj (List.cons.inj (List.cons.inj h).2).2).1 (by decide)
  | cons e ms =>
    cases ns with
    | nil => exact absurd (List.cons.inj (List.cons.inj (List.cons.inj h).2).2).1 (by decide)
    | cons f ns =>
      rcases member_members_inj (List.cons.inj (List.cons.inj h).2).2 with ⟨hef, hrest⟩
      rw [hef, members_inj hrest]

def intMembers (ms : List (String × Json)) : List (String × Int64) :=
  ms.filterMap fun e => match e.2 with
    | .int v => some (e.1, v)
    | _ => none

theorem intMembers_map (ms : List (String × Int64)) : intMembers (ms.map fun e => (e.1, .int e.2)) = ms := by
  induction ms with
  | nil => rfl
  | cons e ms ih =>
    rw [intMembers] at ih ⊢
    simp [ih]

def objectsText : Json → Text
  | .object ms => objectText (intMembers ms)
  | _ => "null".toList

theorem objectsText_map (ms : List (String × Int64)) :
    objectsText (.object (ms.map fun e => (e.1, .int e.2))) = objectText ms := by
  rw [objectsText, intMembers_map]

theorem objectsText_ne_nil (j : Json) : objectsText j ≠ [] := by
  cases j with
  | object ms =>
    rw [objectsText, objectText.eq_def]
    cases intMembers ms <;> exact List.cons_ne_nil _ _
  | _ => exact List.cons_ne_nil _ _

open Classical in
/-- The object that a text is of. -/
noncomputable def objectOf (t : Text) : Option Json :=
  if h : ∃ ms, objectText ms = t then some (.object (h.choose.map fun e => (e.1, .int e.2))) else none

theorem objectOf_objectText (ms : List (String × Int64)) :
    objectOf (objectText ms) = some (.object (ms.map fun e => (e.1, .int e.2))) := by
  have h : ∃ ms', objectText ms' = objectText ms := ⟨ms, rfl⟩
  rw [objectOf, dif_pos h, objectText_inj h.choose_spec]

/-- json-c on objects of integers. -/
noncomputable def plainC : JsonC where
  toJsonString := objectsText
  tokenerParse := objectOf
  ne_nil := objectsText_ne_nil
  parse_object ms _ := by rw [objectsText_map, objectOf_objectText]

def sortDown : SortDown String where
  sort v := v.mergeSort fun a b => decide (b.2 ≤ a.2)
  perm v := List.mergeSort_perm v _
  sorted v := by
    have h := @List.pairwise_mergeSort _ (fun a b : String × ℕ => decide (b.2 ≤ a.2))
      (fun a b c hab hbc => by
        simp only [decide_eq_true_eq] at hab hbc ⊢
        exact le_trans hbc hab)
      (fun a b => by
        simp only [Bool.or_eq_true, decide_eq_true_eq]
        exact le_total b.2 a.2) v
    exact h.imp fun h => by simpa using h

def anInterface : Ident := ⟨1, []⟩

def aHost : Ident := ⟨1, "192.168.1.2_".toList⟩

/-- The interface reads what a host has saved. -/
theorem restores_other : ¬ ∀ (C : JsonC) (S : StdSort String) (D : SortDown String) (maxNumItems : Ident → UInt32)
    (mday : Day) (es : List Ev), Always (act C S D maxNumItems mday) (Law maxNumItems) init es := by
  intro h
  have hlaw := always_last _ (h plainC stableSort sortDown (fun _ => 10) ⟨17, by decide⟩
    [.add aHost "example.com" 5, .serialize aHost 12, .deserialize anInterface 12])
  have hown := (hlaw.restored _ rfl ⟨rfl, rfl⟩).own aHost
  refine absurd (hown ?_) (by decide)
  have hq : top sortDown (2 * 10) [("example.com", 5)] ≠ [] := by
    intro hnil
    have hlen := @length_top sortDown (2 * 10) [("example.com", 5)]
    rw [hnil] at hlen
    exact absurd hlen (by decide)
  have hheld : (if top sortDown (2 * 10) [("example.com", 5)] = [] then none
      else some (aHost, top sortDown (2 * 10) [("example.com", 5)])).map (·.1) = some aHost := by
    rw [if_neg hq]
    rfl
  exact hheld

end Ntopng.Tables.MostVisited
