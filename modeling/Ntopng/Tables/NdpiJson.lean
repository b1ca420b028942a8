/-
  Ntopng.Tables.NdpiJson — the counters of protocols and categories as JSON, and back
  (`nDPIStats::getJSONObject`, `nDPIStats::deserialize`, src/nDPIStats.cpp; src/ProtoCounter.cpp,
  src/CategoryCounter.cpp).

  The names of protocols and categories are nDPI's; those of the object are mapped back to their
  ids. A protocol called "categories" shares its key with the categories. `deserialize` sets the
  counters that the object has to 0, and puts new ones in for those that the JSON has.

  Proved (`round_law`), for all statistics and all objects that own their counters: the object has
  the counters of the statistics and no others, and its old ones are freed once, exactly if
  - no protocol that comes through has any flows, or a counter in the object before,
  - one that does not come through is all 0, and has a counter there,
  - there are no other protocols and categories there.
  The JSON does not have the flows; the counters that are put in for old ones leave these behind.
-/

import Ntopng.Lib.Json
import Ntopng.Tables.NdpiObjects

namespace Ntopng.Tables.NdpiJson

open Ntopng.Lib Ntopng.Lib.EntryLoop Ntopng.Lib.Objects Ntopng.Lib.OrdMap Ntopng.Lib.Pointers
open Ntopng.Tables.Ndpi
open Ntopng.Tables.NdpiObjects (Counters Stats)

/-! ## The code -/

/-- What nDPI says of the names. -/
structure Names where
  protoName : UInt16 → Option String
  protoId : String → UInt16
  categoryName : UInt16 → String
  categoryId : String → UInt16

def ofUInt64 (v : UInt64) : Json := .int v.toInt64

def ofUInt32 (v : UInt32) : Json := .int v.toUInt64.toInt64

def trafficJson (c : TrafficCounter) : Json := .object [("sent", ofUInt64 c.sent), ("rcvd", ofUInt64 c.rcvd)]

def protoJson (c : ProtoCounter) : Json :=
  .object [("duration", ofUInt32 c.duration), ("bytes", trafficJson c.bytes), ("packets", trafficJson c.packets)]

def categoryJson (id : UInt16) (c : CategoryCounter) : Json :=
  .object [("id", ofUInt64 id.toUInt64), ("bytes_sent", ofUInt64 c.bytes.sent), ("bytes_rcvd", ofUInt64 c.bytes.rcvd),
    ("duration", ofUInt32 c.duration)]

section

variable (names : Names)

/-- `ProtoCounter::addProtoJson` -/
def addProtoJson (ms : List (String × Json)) (e : Σ _ : UInt16, ProtoCounter) : List (String × Json) :=
  match names.protoName e.1 with
  | none => ms
  | some name => addMember ms name (protoJson e.2)

/-- `CategoryCounter::addProtoJson` -/
def addCategoryJson (ms : List (String × Json)) (e : Σ _ : UInt16, CategoryCounter) : List (String × Json) :=
  addMember ms (names.categoryName e.1) (categoryJson e.1 e.2)

def getJSONObject (s : NdpiStats) : Json :=
  let inner := s.catCounters.entries.foldl (addCategoryJson names) []
  .object (addMember (s.counters.entries.foldl (addProtoJson names) []) "categories" (.object inner))

end

/-- The number of a member, or 0. -/
def number (o : Json) (k : String) : UInt64 := (o.get k).elim 0 fun v => v.getInt64.toUInt64

def readTraffic (o : Option Json) : TrafficCounter :=
  match o with
  | none => .new
  | some o => if o.isObject then ⟨number o "sent", number o "rcvd"⟩ else .new

/-- `ProtoCounter::deserialize` of a new counter. -/
def readProto (o : Json) : Option ProtoCounter :=
  if o.isObject then
    some ⟨readTraffic (o.get "packets"), readTraffic (o.get "bytes"), (number o "duration").toUInt32, 0, 0⟩
  else none

/-- `CategoryCounter::deserialize` of a new counter. -/
def readCategory (o : Json) : Option CategoryCounter :=
  if o.isObject then some ⟨⟨number o "bytes_sent", number o "bytes_rcvd"⟩, (number o "duration").toUInt32, 0⟩ else none

section

variable (names : Names)

def loadCategory (m : Map UInt16 CategoryCounter) (kv : String × Json) : Map UInt16 CategoryCounter :=
  match readCategory kv.2 with
  | none => m
  | some c => m.insert (names.categoryId kv.1) c

def loadProto (st : Counters × Map UInt16 ℕ) (kv : String × Json) : Counters × Map UInt16 ℕ :=
  if kv.1 = "categories" then st
  else if names.protoId kv.1 = 0 ∧ kv.1 ≠ "Unknown" then st
  else
    match kv.2 with
    | .null => st
    | val =>
      match readProto val with
      | some c => (st.1.new c, st.2.insert (names.protoId kv.1) st.1.size)
      | none => ((st.1.new .new).delete st.1.size, st.2)

/-- All is 0 then, and nothing is freed. -/
def resetStats (st : Counters × Stats) : Counters × Stats :=
  ((pointers st.2.counters).foldl (fun os i => os.modify i fun _ => .new) st.1,
    { st.2 with catCounters := st.2.catCounters.entries.foldl (fun m e => m.insert e.1 .new) st.2.catCounters })

def deserialize (st : Counters × Stats) (o : Json) : Bool × Counters × Stats :=
  if o.isObject then
    let st := resetStats st
    let catCounters := match o.get "categories" with
      | none => st.2.catCounters
      | some inner => if inner.isObject then inner.members.foldl (loadCategory names) st.2.catCounters
        else st.2.catCounters
    let counters := o.members.foldl (loadProto names) (st.1, st.2.counters)
    (true, counters.1, ⟨counters.2, catCounters⟩)
  else (false, st)

end

/-- The destructor. -/
def destroy (st : Counters × Stats) : Counters := (pointers st.2.counters).foldl Objects.delete st.1

/-! ## What is expected -/

/-- Packets, bytes, duration and flows. -/
def protoView (c : ProtoCounter) : TrafficCounter × TrafficCounter × UInt32 × UInt32 :=
  (c.packets, c.bytes, c.duration, c.totalFlows)

def categoryView (c : CategoryCounter) : TrafficCounter × UInt32 := (c.bytes, c.duration)

/-- The names of the statistics are mapped back to their ids. -/
structure Known (names : Names) (s : NdpiStats) : Prop where
  proto : ∀ p ∈ s.counters, ∃ name, names.protoName p = some name ∧ names.protoId name = p
  category : ∀ c ∈ s.catCounters, names.categoryId (names.categoryName c) = c

/-- `r` is what `t` has become; its old counters are those of `t`. -/
structure RoundTrip (s : NdpiStats) (t : Stats) (r : Counters × Stats) : Prop where
  proto : ∀ p, (see r.1 r.2.counters p).map protoView = (s.counters.lookup p).map protoView
  category : ∀ c, (r.2.catCounters.lookup c).map categoryView = (s.catCounters.lookup c).map categoryView
  freed : ∀ i ∈ pointers t.counters, (destroy r).deleted.count i = 1

/-- The protocol comes through: its name is not that of the categories, and only that of the unknown
    protocol is "Unknown". -/
def Carried (names : Names) (p : UInt16) : Prop :=
  names.protoName p ≠ some "categories" ∧ (p = 0 → names.protoName p = some "Unknown")

structure Ok (names : Names) (s : NdpiStats) (t : Stats) : Prop where
  carried : ∀ p c, s.counters.lookup p = some c → Carried names p → c.totalFlows = 0 ∧ p ∉ t.counters
  left : ∀ p c, s.counters.lookup p = some c → ¬ Carried names p → protoView c = protoView .new ∧ p ∈ t.counters
  proto : ∀ p ∈ t.counters, p ∈ s.counters
  category : ∀ c ∈ t.catCounters, c ∈ s.catCounters

/-! ## One counter -/

theorem number_ofUInt64 {o : Json} {k : String} {v : UInt64} (h : o.get k = some (ofUInt64 v)) : number o k = v := by
  rw [number, h]
  simp [ofUInt64, Json.getInt64]

theorem number_ofUInt32 {o : Json} {k : String} {v : UInt32} (h : o.get k = some (ofUInt32 v)) :
    (number o k).toUInt32 = v := by
  rw [number, h]
  simp [ofUInt32, Json.getInt64]

theorem readTraffic_json (c : TrafficCounter) : readTraffic (some (trafficJson c)) = c := by
  rw [readTraffic, trafficJson, Json.isObject, if_pos rfl, number_ofUInt64 (v := c.sent) (by simp [find_cons]),
    number_ofUInt64 (v := c.rcvd) (by simp [find_cons])]

/-- A counter comes back without its flows. -/
theorem readProto_json (c : ProtoCounter) : readProto (protoJson c) = some ⟨c.packets, c.bytes, c.duration, 0, 0⟩ := by
  have hpackets : (protoJson c).get "packets" = some (trafficJson c.packets) := by simp [protoJson, find_cons]
  have hbytes : (protoJson c).get "bytes" = some (trafficJson c.bytes) := by simp [protoJson, find_cons]
  have hduration : (protoJson c).get "duration" = some (ofUInt32 c.duration) := by simp [protoJson, find_cons]
  rw [readProto, if_pos (show (protoJson c).isObject from rfl), hpackets, hbytes, readTraffic_json, readTraffic_json,
    number_ofUInt32 hduration]

theorem readCategory_json (id : UInt16) (c : CategoryCounter) :
    readCategory (categoryJson id c) = some ⟨c.bytes, c.duration, 0⟩ := by
  have hsent : (categoryJson id c).get "bytes_sent" = some (ofUInt64 c.bytes.sent) := by simp [categoryJson, find_cons]
  have hrcvd : (categoryJson id c).get "bytes_rcvd" = some (ofUInt64 c.bytes.rcvd) := by simp [categoryJson, find_cons]
  have hduration : (categoryJson id c).get "duration" = some (ofUInt32 c.duration) := by simp [categoryJson, find_cons]
  rw [readCategory, if_pos (show (categoryJson id c).isObject from rfl), number_ofUInt64 hsent, number_ofUInt64 hrcvd,
    number_ofUInt32 hduration]

/-! ## The members of the JSON -/

section

variable {names : Names} {s : NdpiStats} {os : Counters} {t : Stats}

/-- The name of a protocol of the statistics. -/
def nameOf (names : Names) (p : UInt16) : String := (names.protoName p).getD ""

theorem Known.protoName (h : Known names s) {p : UInt16} (hp : p ∈ s.counters) :
    names.protoName p = some (nameOf names p) := by
  rcases h.proto p hp with ⟨name, hname, -⟩
  rw [nameOf, hname]
  rfl

theorem Known.protoId (h : Known names s) {p : UInt16} (hp : p ∈ s.counters) : names.protoId (nameOf names p) = p := by
  rcases h.proto p hp with ⟨name, hname, hid⟩
  rw [nameOf, hname]
  exact hid

theorem mem_of_entry {κ α : Type*} {m : Map κ α} {e : Σ _ : κ, α} (h : e ∈ m.entries) : e.1 ∈ m :=
  AList.mem_keys.mpr (List.mem_map_of_mem h)

/-- What names a key, and is mapped back to it, names no other key of the map. -/
theorem nodup_names {α : Type*} (m : Map UInt16 α) (f : UInt16 → String) (g : String → UInt16)
    (h : ∀ k ∈ m, g (f k) = k) (v : UInt16 → α → Json) : (keys (m.entries.map fun e => (f e.1, v e.1 e.2))).Nodup := by
  rw [keys, List.map_map]
  refine List.Nodup.of_map g ?_
  rw [List.map_map]
  have hkeys : m.entries.map (g ∘ Prod.fst ∘ fun e => (f e.1, v e.1 e.2)) = m.entries.map Sigma.fst :=
    List.map_congr_left fun e he => h e.1 (mem_of_entry he)
  rw [hkeys]
  exact m.nodupKeys

theorem protoMembers (h : Known names s) : s.counters.entries.foldl (addProtoJson names) [] =
    s.counters.entries.map fun e => (nameOf names e.1, protoJson e.2) := by
  have hstep : s.counters.entries.foldl (addProtoJson names) [] =
      (s.counters.entries.map fun e => (nameOf names e.1, protoJson e.2)).foldl
        (fun ms e => addMember ms e.1 e.2) [] := by
    rw [List.foldl_map]
    refine List.foldl_ext _ _ _ fun ms e he => ?_
    rw [addProtoJson, h.protoName (mem_of_entry he)]
  rw [hstep, foldl_addMember]
  · rfl
  · exact nodup_names s.counters (nameOf names) names.protoId (fun k hk => h.protoId hk) fun _ => protoJson

theorem categoryMembers (h : Known names s) : s.catCounters.entries.foldl (addCategoryJson names) [] =
    s.catCounters.entries.map fun e => (names.categoryName e.1, categoryJson e.1 e.2) := by
  have hstep : s.catCounters.entries.foldl (addCategoryJson names) [] =
      (s.catCounters.entries.map fun e => (names.categoryName e.1, categoryJson e.1 e.2)).foldl
        (fun ms e => addMember ms e.1 e.2) [] := by
    rw [List.foldl_map]
    rfl
  rw [hstep, foldl_addMember]
  · rfl
  · exact nodup_names s.catCounters names.categoryName names.categoryId h.category categoryJson

/-! ## Categories -/

/-- A category of the statistics comes back, and one that only the object has is 0. -/
theorem loaded_category (h : Known names s) (m : Map UInt16 CategoryCounter) (k : UInt16) :
    ((s.catCounters.entries.map fun e => (names.categoryName e.1, categoryJson e.1 e.2)).foldl (loadCategory names)
        (m.entries.foldl (fun m e => m.insert e.1 .new) m)).lookup k =
      match s.catCounters.lookup k with
      | some c => some ⟨c.bytes, c.duration, 0⟩
      | none => (m.lookup k).map fun _ => .new := by
  have hstep : ∀ m', ∀ e ∈ s.catCounters.entries,
      loadCategory names m' (names.categoryName e.1, categoryJson e.1 e.2) =
        m'.insert e.1 ⟨e.2.bytes, e.2.duration, 0⟩ := by
    intro m' e he
    rw [loadCategory, readCategory_json]
    simp only
    rw [h.category e.1 (mem_of_entry he)]
  have hreset := lookup_foldl (m := m) (f := fun m e => m.insert e.1 CategoryCounter.new)
    (g := fun _ _ _ => some CategoryCounter.new) (fun m' e => AList.lookup_insert m')
    (fun m' e k hk => AList.lookup_insert_ne hk) m k
  have hload := fun m' => lookup_foldl (m := s.catCounters)
    (f := fun (m' : Map UInt16 CategoryCounter) e => m'.insert e.1 ⟨e.2.bytes, e.2.duration, 0⟩)
    (g := fun _ c _ => some ⟨c.bytes, c.duration, 0⟩) (fun m' e => AList.lookup_insert m')
    (fun m' e k hk => AList.lookup_insert_ne hk) m' k
  rw [List.foldl_map, List.foldl_ext _ (fun m' e => m'.insert e.1 ⟨e.2.bytes, e.2.duration, 0⟩) _ hstep, hload, hreset]
  cases s.catCounters.lookup k with
  | some c => rfl
  | none =>
    cases m.lookup k with
    | none => rfl
    | some c => rfl

/-! ## Protocols -/

/-- What there is under a key: the object, if it is one of the old ones, and what it holds. -/
def slot (n : ℕ) (st : Counters × Map UInt16 ℕ) (k : UInt16) : Option (Option ℕ × Option ProtoCounter) :=
  (st.2.lookup k).map fun i => (if i < n then some i else none, st.1.read i)

/-- The object owns its counters, and none of them was freed since. -/
structure Held (os : Counters) (st : Counters × Map UInt16 ℕ) : Prop where
  owns : Owns st.1 (pointers st.2)
  size : os.size ≤ st.1.size
  deleted : st.1.deleted = os.deleted

theorem Held.insert {st : Counters × Map UInt16 ℕ} (h : Held os st) (c : ProtoCounter) (p : UInt16) :
    Held os (st.1.new c, st.2.insert p st.1.size) := by
  refine ⟨(h.owns.new c).sublist (pointers_insert_sublist st.2 p st.1.size), ?_, h.deleted⟩
  rw [size_new]
  exact h.size.trans (Nat.le_succ _)

theorem slot_insert {st : Counters × Map UInt16 ℕ} (h : Held os st) (c : ProtoCounter) (p k : UInt16) :
    slot os.size (st.1.new c, st.2.insert p st.1.size) k =
      if k = p then some (none, some c) else slot os.size st k := by
  rw [slot, lookup_insert_eq]
  by_cases hk : k = p
  · rw [if_pos hk, if_pos hk, Option.map_some, read_new_self, if_neg (not_lt.mpr h.size)]
  · rw [if_neg hk, if_neg hk, slot]
    cases hlookup : st.2.lookup k with
    | none => rfl
    | some i => rw [Option.map_some, Option.map_some, read_new_of_lt (h.owns.lt i (lookup_mem hlookup))]

/-- A turn for a protocol of the statistics. -/
theorem loadProto_turn (h : Known names s) {e : Σ _ : UInt16, ProtoCounter} (he : e ∈ s.counters.entries)
    (st : Counters × Map UInt16 ℕ) [Decidable (Carried names e.1)] :
    loadProto names st (nameOf names e.1, protoJson e.2) =
      if Carried names e.1 then
        (st.1.new ⟨e.2.packets, e.2.bytes, e.2.duration, 0, 0⟩, st.2.insert e.1 st.1.size)
      else st := by
  have hname := h.protoName (mem_of_entry he)
  rw [loadProto, h.protoId (mem_of_entry he)]
  by_cases hreserved : nameOf names e.1 = "categories"
  · rw [if_pos hreserved, if_neg]
    intro hcarried
    exact hcarried.1 (by rw [hname, hreserved])
  · rw [if_neg hreserved]
    by_cases hunknown : e.1 = 0 ∧ nameOf names e.1 ≠ "Unknown"
    · rw [if_pos hunknown, if_neg]
      intro hcarried
      have hzero := hcarried.2 hunknown.1
      rw [hname, Option.some.injEq] at hzero
      exact hunknown.2 hzero
    · have hcarried : Carried names e.1 := by
        rw [Carried, hname, ne_eq, Option.some.injEq, Option.some.injEq]
        refine ⟨hreserved, fun hzero => ?_⟩
        exact Classical.byContradiction fun hn => hunknown ⟨hzero, hn⟩
      rw [if_neg hunknown, if_pos hcarried]
      have hread := readProto_json e.2
      unfold protoJson at hread ⊢
      simp only [hread]

open Classical in
theorem loaded_proto (h : Known names s) {st : Counters × Map UInt16 ℕ} (hst : Held os st) :
    Held os ((s.counters.entries.map fun e => (nameOf names e.1, protoJson e.2)).foldl (loadProto names) st) ∧
    ∀ k, slot os.size ((s.counters.entries.map fun e => (nameOf names e.1, protoJson e.2)).foldl (loadProto names) st) k =
      match s.counters.lookup k with
      | some c => if Carried names k then some (none, some ⟨c.packets, c.bytes, c.duration, 0, 0⟩) else slot os.size st k
      | none => slot os.size st k := by
  rw [List.foldl_map]
  have hinv : ∀ st', ∀ e ∈ s.counters.entries, Held os st' →
      Held os (loadProto names st' (nameOf names e.1, protoJson e.2)) := by
    intro st' e he hst'
    rw [loadProto_turn h he]
    split
    · exact hst'.insert _ e.1
    · exact hst'
  refine ⟨inv_foldl hinv hst, fun k => ?_⟩
  rw [view_foldl (v := slot os.size) (I := Held os)
    (g := fun k c old => if Carried names k then some (none, some ⟨c.packets, c.bytes, c.duration, 0, 0⟩) else old)
    s.counters.nodupKeys hinv ?_ ?_ hst k]
  · rw [show s.counters.entries.dlookup k = s.counters.lookup k from rfl]
    cases s.counters.lookup k with
    | none => rfl
    | some c => rfl
  · intro st' e he hst'
    rw [loadProto_turn h he]
    by_cases hcarried : Carried names e.1
    · rw [if_pos hcarried, if_pos hcarried, slot_insert hst', if_pos rfl]
    · rw [if_neg hcarried, if_neg hcarried]
  · intro st' e he hst' k hk
    rw [loadProto_turn h he]
    by_cases hcarried : Carried names e.1
    · rw [if_pos hcarried, slot_insert hst', if_neg hk]
    · rw [if_neg hcarried]

/-- The counters that the object has become 0. -/
theorem reset_held (h : Owns os (pointers t.counters)) : Held os ((resetStats (os, t)).1, t.counters) ∧
    ∀ k, slot os.size ((resetStats (os, t)).1, t.counters) k = (t.counters.lookup k).map fun i => (some i, some .new) := by
  have hloop : ∀ ps : List ℕ, ∀ os' : Counters, ((ps.foldl (fun os i => os.modify i fun _ => .new) os').size = os'.size ∧
      (ps.foldl (fun os i => os.modify i fun _ => .new) os').deleted = os'.deleted) ∧
      ∀ i < os'.size, i ∈ ps ∨ os'.read i = some .new →
        (ps.foldl (fun os i => os.modify i fun _ => .new) os').read i = some .new := by
    intro ps
    induction ps with
    | nil =>
      intro os'
      refine ⟨⟨rfl, rfl⟩, fun i _ hi => ?_⟩
      exact hi.resolve_left List.not_mem_nil
    | cons p ps ih =>
      intro os'
      rcases ih (os'.modify p fun _ => .new) with ⟨⟨hsize, hdeleted⟩, hread⟩
      refine ⟨⟨?_, hdeleted⟩, fun i hlt hi => ?_⟩
      · rw [List.foldl_cons, hsize, size_modify]
      · refine hread i (by rw [size_modify]; exact hlt) ?_
        rcases Option.isSome_iff_exists.mp (read_isSome.mpr hlt) with ⟨c, hc⟩
        rw [read_modify]
        by_cases hp : p = i
        · rw [if_pos hp, hc]
          exact Or.inr rfl
        · rw [if_neg hp]
          rcases hi with hi | hi
          · exact Or.inl ((List.mem_cons.mp hi).resolve_left fun heq => hp heq.symm)
          · exact Or.inr hi
  rcases hloop (pointers t.counters) os with ⟨⟨hsize, hdeleted⟩, hread⟩
  refine ⟨⟨⟨h.nodup, ?_, ?_, ?_⟩, le_of_eq hsize.symm, hdeleted⟩, fun k => ?_⟩
  · intro i hi
    exact lt_of_lt_of_eq (h.lt i hi) hsize.symm
  · intro i hi hmem
    exact h.alive i hi (hdeleted ▸ hmem)
  · intro i hi
    exact lt_of_lt_of_eq (h.past i (hdeleted ▸ hi)) hsize.symm
  · rw [slot]
    cases hk : t.counters.lookup k with
    | none => rfl
    | some i =>
      have hlt := h.lt i (lookup_mem hk)
      rw [Option.map_some, Option.map_some, if_pos hlt]
      exact congrArg (fun c => some (some i, c)) (hread i hlt (Or.inl (lookup_mem hk)))

/-! ## The round trip -/

/-- What is there after `deserialize`. -/
structure Restored (names : Names) (s : NdpiStats) (os : Counters) (t : Stats) (r : Counters × Stats) : Prop where
  held : Held os (r.1, r.2.counters)
  carried : ∀ p c, s.counters.lookup p = some c → Carried names p →
    slot os.size (r.1, r.2.counters) p = some (none, some ⟨c.packets, c.bytes, c.duration, 0, 0⟩)
  other : ∀ p, (∀ c, s.counters.lookup p = some c → ¬ Carried names p) →
    slot os.size (r.1, r.2.counters) p = (t.counters.lookup p).map fun i => (some i, some .new)
  category : ∀ k, r.2.catCounters.lookup k = match s.catCounters.lookup k with
    | some c => some ⟨c.bytes, c.duration, 0⟩
    | none => (t.catCounters.lookup k).map fun _ => .new

theorem deserialize_restored (hnames : Known names s) (h : Owns os (pointers t.counters)) :
    Restored names s os t (deserialize names (os, t) (getJSONObject names s)).2 := by
  rcases reset_held h with ⟨hheld, hslot⟩
  rcases loaded_proto hnames hheld with ⟨hloaded, hproto⟩
  have hskip : ∀ (st : Counters × Map UInt16 ℕ) v, loadProto names st ("categories", v) = st := by
    intro st v
    rw [loadProto, if_pos rfl]
  have hcounters : ((deserialize names (os, t) (getJSONObject names s)).2.1,
      (deserialize names (os, t) (getJSONObject names s)).2.2.counters) =
      (s.counters.entries.map fun e => (nameOf names e.1, protoJson e.2)).foldl (loadProto names)
        ((resetStats (os, t)).1, t.counters) := by
    rw [deserialize, getJSONObject, Json.isObject, if_pos rfl]
    simp only [Json.members_object]
    rw [foldl_skip hskip, protoMembers hnames]
    rfl
  have hcategories : (deserialize names (os, t) (getJSONObject names s)).2.2.catCounters =
      (s.catCounters.entries.map fun e => (names.categoryName e.1, categoryJson e.1 e.2)).foldl (loadCategory names)
        (t.catCounters.entries.foldl (fun m e => m.insert e.1 .new) t.catCounters) := by
    rw [deserialize, getJSONObject, Json.isObject, if_pos rfl]
    simp only [Json.get_object, find_addMember, Json.isObject, if_true, Json.members_object]
    rw [categoryMembers hnames]
    rfl
  refine ⟨?_, ?_, ?_, ?_⟩
  · rw [hcounters]
    exact hloaded
  · intro p c hp hcarried
    rw [hcounters, hproto p, hp]
    simp only
    rw [if_pos hcarried]
  · intro p hnot
    rw [hcounters, hproto p, ← hslot p]
    cases hp : s.counters.lookup p with
    | none => rfl
    | some c =>
      simp only
      rw [if_neg (hnot c hp)]
  · intro k
    rw [hcategories, loaded_category hnames]

theorem deleted_destroy (r : Counters × Stats) :
    (destroy r).deleted = (pointers r.2.counters).reverse ++ r.1.deleted := by
  have hloop : ∀ ps : List ℕ, ∀ os : Counters, (ps.foldl Objects.delete os).deleted = ps.reverse ++ os.deleted := by
    intro ps
    induction ps with
    | nil => exact fun _ => rfl
    | cons p ps ih =>
      intro os
      rw [List.foldl_cons, ih, deleted_delete, List.reverse_cons, List.append_assoc, List.singleton_append]
  exact hloop ..

theorem slot_see (n : ℕ) (st : Counters × Map UInt16 ℕ) (k : UInt16) : see st.1 st.2 k = (slot n st k).bind Prod.snd := by
  rw [see, slot]
  cases st.2.lookup k with
  | none => rfl
  | some i => rfl

/-- An old counter is freed once exactly if it is still there. -/
theorem freed_iff {r : Counters × Stats} (h : Owns os (pointers t.counters)) (hr : Restored names s os t r) :
    (∀ i ∈ pointers t.counters, (destroy r).deleted.count i = 1) ↔
      ∀ p ∈ t.counters, ∀ c, s.counters.lookup p = some c → ¬ Carried names p := by
  have hcount : ∀ i ∈ pointers t.counters, ((destroy r).deleted.count i = 1 ↔ i ∈ pointers r.2.counters) := by
    intro i hi
    have hdeleted : r.1.deleted.count i = 0 := List.count_eq_zero.mpr (hr.held.deleted ▸ h.alive i hi)
    rw [deleted_destroy, List.count_append, List.count_reverse, hdeleted, add_zero]
    constructor
    · intro hone
      exact List.count_pos_iff.mp (by omega)
    · intro hmem
      exact List.count_eq_one_of_mem hr.held.owns.nodup hmem
  constructor
  · intro hfreed p hp c hc hcarried
    rcases Option.isSome_iff_exists.mp (AList.lookup_isSome.mpr hp) with ⟨i, hi⟩
    have hmem := (hcount i (lookup_mem hi)).mp (hfreed i (lookup_mem hi))
    rcases mem_pointers.mp hmem with ⟨p', hp'⟩
    have hlt := h.lt i (lookup_mem hi)
    have hslot : slot os.size (r.1, r.2.counters) p' = some (some i, r.1.read i) := by
      rw [slot, hp', Option.map_some, if_pos hlt]
    have hother : ∀ c, s.counters.lookup p' = some c → ¬ Carried names p' := by
      intro c' hc' hcarried'
      rw [hr.carried p' c' hc' hcarried'] at hslot
      cases hslot
    rw [hr.other p' hother] at hslot
    rcases Option.map_eq_some_iff.mp hslot with ⟨j, hj, heq⟩
    rw [Prod.mk.injEq, Option.some.injEq] at heq
    rw [heq.1] at hj
    rw [lookup_inj h.nodup hj hi] at hother
    exact hother c hc hcarried
  · intro hnot i hi
    rw [hcount i hi]
    rcases mem_pointers.mp hi with ⟨p, hp⟩
    have hmem : p ∈ t.counters := AList.lookup_isSome.mp (by rw [hp]; rfl)
    have hslot := hr.other p (hnot p hmem)
    rw [hp, slot] at hslot
    rcases Option.map_eq_some_iff.mp hslot with ⟨j, hj, heq⟩
    rw [Prod.mk.injEq] at heq
    split at heq
    · rw [Option.some.injEq] at heq
      exact heq.1 ▸ lookup_mem hj
    · cases heq.1

/-- The statistics `s` as JSON, read into the object `t`. -/
theorem round_law (names : Names) (s : NdpiStats) (hnames : Known names s) (os : Counters) (t : Stats)
    (h : Owns os (pointers t.counters)) :
    RoundTrip s t (deserialize names (os, t) (getJSONObject names s)).2 ↔ Ok names s t := by
  have hr := deserialize_restored hnames h
  generalize (deserialize names (os, t) (getJSONObject names s)).2 = r at hr ⊢
  have hcarried : ∀ p c, s.counters.lookup p = some c → Carried names p →
      (see r.1 r.2.counters p).map protoView = some (c.packets, c.bytes, c.duration, 0) := by
    intro p c hc hp
    rw [slot_see os.size (r.1, r.2.counters), hr.carried p c hc hp]
    rfl
  have hother : ∀ p, (∀ c, s.counters.lookup p = some c → ¬ Carried names p) →
      (see r.1 r.2.counters p).map protoView = (t.counters.lookup p).map fun _ => protoView .new := by
    intro p hp
    rw [slot_see os.size (r.1, r.2.counters), hr.other p hp]
    cases t.counters.lookup p with
    | none => rfl
    | some i => rfl
  constructor
  · intro hround
    have hfreed := (freed_iff h hr).mp hround.freed
    refine ⟨?_, ?_, ?_, ?_⟩
    · intro p c hc hp
      have hview := hround.proto p
      rw [hcarried p c hc hp, hc, Option.map_some, Option.some.injEq, protoView] at hview
      simp only [Prod.mk.injEq] at hview
      exact ⟨hview.2.2.2.symm, fun hmem => hfreed p hmem c hc hp⟩
    · intro p c hc hp
      have hview := hround.proto p
      rw [hother p (fun _ _ => hp), hc] at hview
      rcases Option.map_eq_some_iff.mp hview with ⟨i, hi, heq⟩
      exact ⟨heq.symm, AList.lookup_isSome.mp (by rw [hi]; rfl)⟩
    · intro p hp
      refine Classical.byContradiction fun hn => ?_
      have hnone := AList.lookup_eq_none.mpr hn
      have hview := hround.proto p
      rw [hother p (fun c hc => by rw [hnone] at hc; cases hc), hnone] at hview
      rcases Option.isSome_iff_exists.mp (AList.lookup_isSome.mpr hp) with ⟨i, hi⟩
      rw [hi] at hview
      cases hview
    · intro k hk
      refine Classical.byContradiction fun hn => ?_
      have hview := hround.category k
      rw [hr.category k, AList.lookup_eq_none.mpr hn] at hview
      rcases Option.isSome_iff_exists.mp (AList.lookup_isSome.mpr hk) with ⟨c, hc⟩
      simp only [hc] at hview
      cases hview
  · intro hok
    refine ⟨?_, ?_, ?_⟩
    · intro p
      cases hc : s.counters.lookup p with
      | none =>
        have hnone : t.counters.lookup p = none :=
          AList.lookup_eq_none.mpr fun hp => AList.lookup_eq_none.mp hc (hok.proto p hp)
        rw [hother p (fun c hc' => by rw [hc] at hc'; cases hc'), hnone]
        rfl
      | some c =>
        by_cases hp : Carried names p
        · rw [hcarried p c hc hp, Option.map_some, protoView, (hok.carried p c hc hp).1]
        · rcases hok.left p c hc hp with ⟨hzero, hmem⟩
          rcases Option.isSome_iff_exists.mp (AList.lookup_isSome.mpr hmem) with ⟨i, hi⟩
          rw [hother p (fun _ _ => hp), hi, Option.map_some, Option.map_some, hzero]
    · intro k
      rw [hr.category k]
      cases hc : s.catCounters.lookup k with
      | none =>
        have hnone : t.catCounters.lookup k = none :=
          AList.lookup_eq_none.mpr fun hk => AList.lookup_eq_none.mp hc (hok.category k hk)
        rw [hnone]
        rfl
      | some c => rfl
    · rw [freed_iff h hr]
      intro p hp c hc hcarried'
      exact (hok.carried p c hc hcarried').2 hp

/-- Some names. -/
def someNames : Names where
  protoName p := some (if p = 0 then "Unknown" else if p = 7 then "HTTP" else "DNS")
  protoId name := if name = "HTTP" then 7 else if name = "DNS" then 5 else 0
  categoryName c := if c = 5 then "Web" else "Unspecified"
  categoryId name := if name = "Web" then 5 else 0

/-- Protocol 0 has another name. -/
def unclassified : Names :=
  { someNames with protoName := fun p => if p = 0 then some "Unclassified" else someNames.protoName p }

/-- A protocol that comes through, one that does not, and a category. -/
def twoProtocols : NdpiStats :=
  ⟨((∅ : Map UInt16 ProtoCounter).insert 7 ⟨⟨1, 0⟩, ⟨60, 0⟩, 5, 100, 0⟩).insert 0 .new,
    (∅ : Map UInt16 CategoryCounter).insert 5 ⟨⟨60, 0⟩, 5, 100⟩⟩

/-- An object that has a counter, and a category. -/
def reused : Counters × Stats :=
  (Objects.empty.new ⟨⟨2, 3⟩, ⟨200, 300⟩, 15, 50, 4⟩,
    ⟨(∅ : Map UInt16 ℕ).insert 0 0, (∅ : Map UInt16 CategoryCounter).insert 5 ⟨⟨200, 300⟩, 15, 50⟩⟩)

theorem known_twoProtocols : Known unclassified twoProtocols := by
  refine ⟨?_, ?_⟩
  · intro p hp
    rcases (AList.mem_insert _).mp hp with rfl | hp
    · exact ⟨"Unclassified", by decide, by decide⟩
    · rcases (AList.mem_insert _).mp hp with rfl | hp
      · exact ⟨"HTTP", by decide, by decide⟩
      · cases hp
  · intro c hc
    rcases (AList.mem_insert _).mp hc with rfl | hc
    · decide
    · cases hc

theorem ok_reused : Ok unclassified twoProtocols reused.2 := by
  have hcounters : ∀ p c, twoProtocols.counters.lookup p = some c → p = 0 ∧ c = .new ∨ p = 7 ∧ c.totalFlows = 0 := by
    intro p c hc
    rw [twoProtocols] at hc
    by_cases h0 : p = 0
    · subst h0
      rw [AList.lookup_insert, Option.some.injEq] at hc
      exact .inl ⟨rfl, hc.symm⟩
    · rw [AList.lookup_insert_ne h0] at hc
      by_cases h7 : p = 7
      · subst h7
        rw [AList.lookup_insert, Option.some.injEq] at hc
        exact .inr ⟨rfl, hc ▸ rfl⟩
      · rw [AList.lookup_insert_ne h7] at hc
        cases hc
  have h0 : ¬ Carried unclassified 0 := fun h => absurd (h.2 rfl) (by decide)
  have h7 : Carried unclassified 7 := ⟨by decide, fun h => absurd h (by decide)⟩
  refine ⟨?_, ?_, ?_, ?_⟩
  · intro p c hc hp
    rcases hcounters p c hc with ⟨rfl, -⟩ | ⟨rfl, hflows⟩
    · exact absurd hp h0
    · exact ⟨hflows, by decide⟩
  · intro p c hc hp
    rcases hcounters p c hc with ⟨rfl, rfl⟩ | ⟨rfl, -⟩
    · exact ⟨rfl, by decide⟩
    · exact absurd h7 hp
  · intro p hp
    rcases (AList.mem_insert _).mp hp with rfl | hp
    · decide
    · cases hp
  · intro c hc
    rcases (AList.mem_insert _).mp hc with rfl | hc
    · decide
    · cases hc

theorem round_law_reused :
    RoundTrip twoProtocols reused.2 (deserialize unclassified reused (getJSONObject unclassified twoProtocols)).2 :=
  (round_law unclassified twoProtocols known_twoProtocols reused.1 reused.2
    ⟨by decide, by decide, by decide, by decide⟩).mpr ok_reused

/-- One protocol, with some flows. -/
def oneProtocol (totalFlows : UInt32) : NdpiStats :=
  ⟨(∅ : Map UInt16 ProtoCounter).insert 7 ⟨⟨1, 0⟩, ⟨60, 0⟩, 5, 100, totalFlows⟩, ∅⟩

theorem known_oneProtocol (totalFlows : UInt32) : Known someNames (oneProtocol totalFlows) := by
  refine ⟨?_, ?_⟩
  · intro p hp
    rcases (AList.mem_insert _).mp hp with rfl | hp
    · exact ⟨"HTTP", by decide, by decide⟩
    · cases hp
  · intro c hc
    cases hc

/-- Three flows do not come back. -/
theorem flows_lost : ¬ ∀ (names : Names) (s : NdpiStats), Known names s → ∀ (os : Counters) (t : Stats),
    Owns os (pointers t.counters) → RoundTrip s t (deserialize names (os, t) (getJSONObject names s)).2 := by
  intro h
  have hround := h someNames (oneProtocol 3) (known_oneProtocol 3) .empty .new owns_empty
  have hview := hround.proto 7
  revert hview
  decide

end

end Ntopng.Tables.NdpiJson
