/-
  Ntopng.Hosts.Listening — the listening ports an agent sends
  (src/ListeningPorts.cpp, include/ListeningPorts.h).

  An entry is what `json_object_object_get_ex` finds in it: `port` as `json_object_get_int` gives it, and the
  texts as `json_object_get_string` does. A `std::string` is made of a text up to its first 0. A JSON null text
  cannot be represented: `json_object_get_string` gives a null pointer for it, and no string is made of that.

  `port` and `pinfo` are declared before the loop, so that an entry starts with what the entries before it
  left there. Without a port it is written to the port of an earlier one; without a text it has that of an
  earlier one.

  Proved (`listening_ports_law`): of each port what its last entry says is stored, and nothing else, exactly
  if of each such entry the texts are the last ones (up to their first 0) of all entries from the first with a
  port up to the next with a port after it.
-/

import Ntopng.Lib.Bits
import Ntopng.Lib.OrdMap

namespace Ntopng.Hosts.Listening

open Ntopng.Lib.Bits Ntopng.Lib.OrdMap

structure ListeningPortInfo where
  process : List UInt8 := []
  package : List UInt8 := []
deriving DecidableEq

def ListeningPortInfo.setProcess (i : ListeningPortInfo) (p : List UInt8) : ListeningPortInfo :=
  { i with process := p.takeWhile (· ≠ 0) }

def ListeningPortInfo.setPackage (i : ListeningPortInfo) (p : List UInt8) : ListeningPortInfo :=
  { i with package := p.takeWhile (· ≠ 0) }

structure Entry where
  port : Option Int32
  pkg : Option (List UInt8)
  proc : Option (List UInt8)

abbrev PortMap := List (UInt16 × ListeningPortInfo)

structure Loop where
  port : UInt16
  pinfo : ListeningPortInfo
  info : PortMap

/-- `port = (u_int32_t)json_object_get_int(p)` -/
def portOf (n : Int32) : UInt16 := n.toUInt32.toUInt16

def visit (s : Loop) (e : Entry) : Loop :=
  let port := match e.port with
    | some n => portOf n
    | none => s.port
  if port ≠ 0 then
    let pinfo := match e.pkg with
      | some p => s.pinfo.setPackage p
      | none => s.pinfo
    let pinfo := match e.proc with
      | some p => pinfo.setProcess p
      | none => pinfo
    { port := port, pinfo := pinfo, info := put s.info port pinfo }
  else { s with port := port }

def loop (entries : List Entry) (info : PortMap) : Loop := entries.foldl visit ⟨0, {}, info⟩

/-- `none` is a value that is not an array. -/
def parsePortInfo (z : Option (List Entry)) (info : PortMap) : PortMap :=
  match z with
  | some entries => (loop entries info).info
  | none => info

inductive Protocol where
  | tcp4
  | tcp6
  | udp4
  | udp6

structure ListeningPorts where
  tcp4 : PortMap := []
  tcp6 : PortMap := []
  udp4 : PortMap := []
  udp6 : PortMap := []

/-- What an object has under the names of the protocols. `none` is a member that is not there. -/
structure Message where
  tcp4 : Option (Option (List Entry))
  tcp6 : Option (Option (List Entry))
  udp4 : Option (Option (List Entry))
  udp6 : Option (Option (List Entry))

def parseMember (p : Option (Option (List Entry))) (info : PortMap) : PortMap :=
  match p with
  | some p => parsePortInfo p info
  | none => info

/-- `none` is a value that is not an object. -/
def parsePorts (z : Option Message) (ports : ListeningPorts) : ListeningPorts :=
  match z with
  | some z =>
    let ports := { ports with tcp4 := parseMember z.tcp4 ports.tcp4 }
    let ports := { ports with udp4 := parseMember z.udp4 ports.udp4 }
    let ports := { ports with tcp6 := parseMember z.tcp6 ports.tcp6 }
    { ports with udp6 := parseMember z.udp6 ports.udp6 }
  | none => ports

/-! ## What the entries say -/

def ListeningPorts.of (ports : ListeningPorts) : Protocol → PortMap
  | .tcp4 => ports.tcp4
  | .tcp6 => ports.tcp6
  | .udp4 => ports.udp4
  | .udp6 => ports.udp6

def Message.member (z : Message) : Protocol → Option (Option (List Entry))
  | .tcp4 => z.tcp4
  | .tcp6 => z.tcp6
  | .udp4 => z.udp4
  | .udp6 => z.udp6

def Message.entries (z : Message) (proto : Protocol) : List Entry := ((z.member proto).getD none).getD []

def Entry.Valid (e : Entry) : Prop := ∀ n ∈ e.port, 1 ≤ n.toInt ∧ n.toInt ≤ 65535

def Entry.carries (e : Entry) (p : UInt16) : Bool := e.port.any fun n => n.toInt = (p.toNat : ℤ)

/-- What an entry says itself. -/
def Entry.own (e : Entry) : ListeningPortInfo := { process := e.proc.getD [], package := e.pkg.getD [] }

def lastEntry (p : UInt16) (entries : List Entry) : Option Entry := entries.reverse.find? fun e => e.carries p

/-- The ports of the entries are stored, each as its last entry says. -/
def OwnInfo (entries : List Entry) (info : PortMap) : Prop :=
  ∀ p, find info p = (lastEntry p entries).map Entry.own

/-- The text that was there last, up to its first 0. -/
def lastText (text : Entry → Option (List UInt8)) (entries : List Entry) : List UInt8 :=
  ((entries.filterMap text).getLast?.getD []).takeWhile (· ≠ 0)

/-- The entries from the first with a port. -/
def seen (entries : List Entry) : List Entry := entries.dropWhile fun e => e.port.isNone

/-- The entries up to the next with a port. -/
def upToNext (entries : List Entry) : List Entry := entries.takeWhile fun e => e.port.isNone

/-- Of the last entry of each port, its texts are the last ones seen before the next port. -/
def Separate (entries : List Entry) : Prop :=
  ∀ before e after, entries = before ++ e :: after → ∀ p, e.carries p → (∀ d ∈ after, ¬ d.carries p) →
    lastText Entry.pkg (seen before ++ e :: upToNext after) = e.pkg.getD [] ∧
      lastText Entry.proc (seen before ++ e :: upToNext after) = e.proc.getD []

/-! ## The loop -/

variable {e : Entry} {l entries before after : List Entry} {p : UInt16} {info : PortMap}

theorem portOf_toNat {n : Int32} (h : 1 ≤ n.toInt ∧ n.toInt ≤ 65535) : ((portOf n).toNat : ℤ) = n.toInt := by
  have hnat := toNat_toUInt32 n
  rw [portOf, UInt32.toNat_toUInt16]
  omega

theorem carries_iff (h : e.Valid) : e.carries p ↔ ∃ n, e.port = some n ∧ portOf n = p := by
  rw [Entry.carries, Option.any_eq_true]
  refine exists_congr fun n => and_congr_right fun hn => ?_
  have hport := portOf_toNat (h n hn)
  rw [decide_eq_true_iff, ← UInt16.toNat_inj]
  omega

theorem carries_ne_zero (h : e.Valid) (hp : e.carries p) : p ≠ 0 := by
  rintro rfl
  obtain ⟨n, hn, heq⟩ := Option.any_eq_true .. |>.mp hp
  have hrange := h n hn
  have hzero : n.toInt = 0 := by simpa using heq
  omega

theorem isNone_of_carries (h : e.carries p) : e.port.isNone = false := by
  obtain ⟨n, hn, -⟩ := Option.any_eq_true .. |>.mp h
  rw [hn, Option.isNone_some]

theorem lastText_append (text : Entry → Option (List UInt8)) (l : List Entry) (e : Entry) :
    lastText text (l ++ [e]) = match text e with
      | some s => s.takeWhile (· ≠ 0)
      | none => lastText text l := by
  rw [lastText, List.filterMap_append, List.getLast?_append]
  cases htext : text e with
  | none => rw [List.filterMap_cons_none htext]; rfl
  | some s => rw [List.filterMap_cons_some htext]; rfl

/-- The port of the last entry that has one. -/
def carried (l : List Entry) : UInt16 := ((l.filterMap Entry.port).getLast?.map portOf).getD 0

theorem carried_append (l : List Entry) (e : Entry) : carried (l ++ [e]) = match e.port with
    | some n => portOf n
    | none => carried l := by
  rw [carried, List.filterMap_append, List.getLast?_append]
  cases hport : e.port with
  | none => rw [List.filterMap_cons_none hport]; rfl
  | some n => rw [List.filterMap_cons_some hport]; rfl

theorem seen_append (l : List Entry) (e : Entry) :
    seen (l ++ [e]) = if seen l = [] then (if e.port.isNone then [] else [e]) else seen l ++ [e] := by
  rw [seen, List.dropWhile_append, ← seen]
  by_cases hl : seen l = []
  · rw [if_pos hl, hl, List.isEmpty_nil, if_pos rfl, List.dropWhile_cons, List.dropWhile_nil]
  · rw [if_neg hl, if_neg (by simpa using hl)]

/-- The port is 0 as long as no entry had one. -/
theorem carried_eq_zero (h : ∀ e ∈ l, e.Valid) : carried l = 0 ↔ seen l = [] := by
  induction l using List.reverseRecOn with
  | nil => exact iff_of_true rfl rfl
  | append_singleton l e ih =>
    have hl : ∀ d ∈ l, d.Valid := fun d hd => h d (List.mem_append_left _ hd)
    have he : e.Valid := h e (List.mem_append_right _ (List.mem_singleton_self _))
    rw [carried_append, seen_append]
    cases hport : e.port with
    | none =>
      rw [Option.isNone_none, if_pos rfl]
      by_cases hseen : seen l = []
      · rw [if_pos hseen]
        exact iff_of_true ((ih hl).mpr hseen) rfl
      · rw [if_neg hseen]
        exact iff_of_false (fun hzero => hseen ((ih hl).mp hzero)) (by simp)
    | some n =>
      have hne : portOf n ≠ 0 := carries_ne_zero he ((carries_iff he).mpr ⟨n, hport, rfl⟩)
      refine iff_of_false hne ?_
      split <;> simp

theorem seen_append_ne_nil (h : seen (l ++ [e]) ≠ []) : seen (l ++ [e]) = seen l ++ [e] := by
  rw [seen_append] at h ⊢
  by_cases hl : seen l = []
  · rw [if_pos hl] at h ⊢
    rw [hl, List.nil_append]
    cases hport : e.port.isNone with
    | true =>
      rw [hport, if_pos rfl] at h
      exact absurd rfl h
    | false => exact if_neg Bool.false_ne_true
  · exact if_neg hl

theorem loop_append (l : List Entry) (e : Entry) (info : PortMap) : loop (l ++ [e]) info = visit (loop l info) e := by
  rw [loop, List.foldl_append]
  rfl

/-- What `pinfo` is after some entries. -/
def seenInfo (l : List Entry) : ListeningPortInfo :=
  { process := lastText Entry.proc (seen l), package := lastText Entry.pkg (seen l) }

theorem visit_zero {s : Loop} (hport : s.port = carried l) (h : carried (l ++ [e]) = 0) :
    visit s e = { s with port := carried (l ++ [e]) } := by
  rw [carried_append, ← hport] at h
  rw [visit, carried_append, ← hport, if_neg (not_not.mpr h)]

theorem visit_ne_zero {s : Loop} (hport : s.port = carried l) (hinfo : s.pinfo = seenInfo l) (h : carried (l ++ [e]) ≠ 0)
    (hseen : seen (l ++ [e]) ≠ []) :
    visit s e = ⟨carried (l ++ [e]), seenInfo (l ++ [e]), put s.info (carried (l ++ [e])) (seenInfo (l ++ [e]))⟩ := by
  have hnext : seenInfo (l ++ [e]) =
      { process := match e.proc with
          | some s => s.takeWhile (· ≠ 0)
          | none => (seenInfo l).process
        package := match e.pkg with
          | some s => s.takeWhile (· ≠ 0)
          | none => (seenInfo l).package } := by
    rw [seenInfo, seen_append_ne_nil hseen, lastText_append, lastText_append]
    rfl
  rw [carried_append, ← hport] at h ⊢
  rw [visit, if_pos h, hnext, hinfo]
  cases e.proc <;> cases e.pkg <;> rfl

/-- What the loop has in its variables after some entries. -/
theorem loop_eq (h : ∀ e ∈ l, e.Valid) : (loop l info).port = carried l ∧ (loop l info).pinfo = seenInfo l := by
  induction l using List.reverseRecOn with
  | nil => exact ⟨rfl, rfl⟩
  | append_singleton l e ih =>
    have hzero := carried_eq_zero h
    obtain ⟨hport, hinfo⟩ := ih fun d hd => h d (List.mem_append_left _ hd)
    rw [loop_append]
    by_cases hc : carried (l ++ [e]) = 0
    · rw [visit_zero hport hc]
      refine ⟨rfl, ?_⟩
      have hnil := hzero.mp hc
      have hl : seen l = [] := by
        by_contra hl
        rw [seen_append, if_neg hl] at hnil
        simp at hnil
      rw [hinfo, seenInfo, seenInfo, hnil, hl]
    · rw [visit_ne_zero hport hinfo hc fun hnil => hc (hzero.mpr hnil)]
      exact ⟨rfl, rfl⟩

/-- An entry is written to the port that is carried to it. -/
theorem find_loop_append (h : ∀ d ∈ l ++ [e], d.Valid) (p : UInt16) : find (loop (l ++ [e]) info).info p =
    if carried (l ++ [e]) = p ∧ p ≠ 0 then some (seenInfo (l ++ [e])) else find (loop l info).info p := by
  obtain ⟨hport, hinfo⟩ := loop_eq fun d hd => h d (List.mem_append_left _ hd)
  rw [loop_append]
  by_cases hc : carried (l ++ [e]) = 0
  · rw [visit_zero hport hc, if_neg fun hp => hp.2 (hp.1.symm.trans hc)]
  · rw [visit_ne_zero hport hinfo hc fun hnil => hc ((carried_eq_zero h).mpr hnil), find_put]
    refine if_congr ?_ rfl rfl
    refine (and_iff_left_of_imp ?_).symm
    rintro rfl
    exact hc

/-! ## What is stored of a port -/

/-- A port no entry carries is not stored. -/
theorem find_none_of_carries (h : ∀ d ∈ l, d.Valid) (hp : ∀ d ∈ l, ¬ d.carries p) :
    find (loop l []).info p = none ∧ (p ≠ 0 → carried l ≠ p) := by
  induction l using List.reverseRecOn with
  | nil => exact ⟨rfl, fun h => h.symm⟩
  | append_singleton l e ih =>
    obtain ⟨hfind, hcarried⟩ := ih (fun d hd => h d (List.mem_append_left _ hd)) fun d hd => hp d (List.mem_append_left _ hd)
    have hmem : e ∈ l ++ [e] := List.mem_append_right _ (List.mem_singleton_self _)
    have hne : p ≠ 0 → carried (l ++ [e]) ≠ p := by
      intro hp0
      rw [carried_append]
      cases hport : e.port with
      | none => exact hcarried hp0
      | some n => exact fun heq => hp e hmem ((carries_iff (h e hmem)).mpr ⟨n, hport, heq⟩)
    refine ⟨?_, hne⟩
    rw [find_loop_append h, if_neg fun hc => hne hc.2 hc.1, hfind]

theorem seen_mid (he : e.port.isNone = false) (before after : List Entry) :
    seen (before ++ e :: after) = seen before ++ e :: after := by
  rw [seen, List.dropWhile_append, ← seen]
  by_cases hb : seen before = []
  · rw [hb, List.isEmpty_nil, if_pos rfl, List.dropWhile_cons, if_neg (by rw [he]; exact Bool.false_ne_true), List.nil_append]
  · rw [if_neg (by simpa using hb)]

theorem upToNext_none (h : ∀ d ∈ l, d.port = none) : upToNext l = l := by
  rw [upToNext, List.takeWhile_eq_self_iff]
  intro d hd
  rw [h d hd, Option.isNone_none]

/-- An entry behind one with a port, or with a port itself, changes nothing. -/
theorem upToNext_append (h : e.port ≠ none ∨ ∃ d ∈ l, d.port ≠ none) : upToNext (l ++ [e]) = upToNext l := by
  rw [upToNext, List.takeWhile_append, ← upToNext]
  split
  next hlen =>
    have hself : upToNext l = l := (List.takeWhile_prefix _).eq_of_length hlen
    rcases h with he | ⟨d, hd, hport⟩
    · rw [List.takeWhile_cons, if_neg (by simpa using he), List.append_nil, hself]
    · rw [upToNext, List.takeWhile_eq_self_iff] at hself
      exact absurd (Option.isNone_iff_eq_none.mp (hself d hd)) hport
  next => rfl

/-- Of the last entry of a port, the texts that were last before the next port are stored. -/
theorem find_last (h : ∀ d ∈ before ++ e :: after, d.Valid) (he : e.carries p) (hlast : ∀ d ∈ after, ¬ d.carries p) :
    find (loop (before ++ e :: after) []).info p = some (seenInfo (before ++ e :: upToNext after)) ∧
      (carried (before ++ e :: after) = p ↔ ∀ d ∈ after, d.port = none) := by
  have hvalid : e.Valid := h e (by simp)
  have hp0 := carries_ne_zero hvalid he
  induction after using List.reverseRecOn with
  | nil =>
    obtain ⟨n, hn, hportOf⟩ := (carries_iff hvalid).mp he
    have hcarried : carried (before ++ [e]) = p := by rw [carried_append, hn, ← hportOf]
    rw [find_loop_append h, if_pos ⟨hcarried, hp0⟩]
    exact ⟨rfl, iff_of_true hcarried fun d hd => absurd hd List.not_mem_nil⟩
  | append_singleton after d ih =>
    rw [← List.cons_append, ← List.append_assoc] at h ⊢
    obtain ⟨hfind, hcarried⟩ := ih (fun c hc => h c (List.mem_append_left _ hc)) fun c hc => hlast c (List.mem_append_left _ hc)
    have hd : d ∈ after ++ [d] := List.mem_append_right _ (List.mem_singleton_self _)
    rw [find_loop_append h, carried_append]
    cases hport : d.port with
    | none =>
      by_cases hall : ∀ c ∈ after, c.port = none
      · have hall' : ∀ c ∈ after ++ [d], c.port = none := by
          intro c hc
          rcases List.mem_append.mp hc with hc | hc
          · exact hall c hc
          · rw [List.mem_singleton.mp hc, hport]
        rw [if_pos ⟨hcarried.mpr hall, hp0⟩, upToNext_none hall', List.append_assoc, List.cons_append]
        exact ⟨rfl, iff_of_true (hcarried.mpr hall) hall'⟩
      · rw [if_neg fun hc => hall (hcarried.mp hc.1), hfind, upToNext_append]
        · refine ⟨rfl, iff_of_false (fun hc => hall (hcarried.mp hc)) fun hall' => hall fun c hc => ?_⟩
          exact hall' c (List.mem_append_left _ hc)
        · right
          by_contra hno
          refine hall fun c hc => ?_
          by_contra hne
          exact hno ⟨c, hc, hne⟩
    | some n =>
      have hne : portOf n ≠ p := fun heq =>
        hlast d hd ((carries_iff (h d (List.mem_append_right _ (List.mem_singleton_self _)))).mpr ⟨n, hport, heq⟩)
      rw [if_neg fun hc => hne hc.1, hfind, upToNext_append (.inl (by rw [hport]; exact Option.some_ne_none n))]
      refine ⟨rfl, iff_of_false hne fun hall => ?_⟩
      rw [hall d hd] at hport
      cases hport

/-! ## What the entries say of a port -/

theorem lastEntry_none (hp : ∀ d ∈ l, ¬ d.carries p) : lastEntry p l = none := by
  rw [lastEntry, List.find?_eq_none]
  exact fun d hd => hp d (List.mem_reverse.mp hd)

theorem lastEntry_mid (he : e.carries p) (hlast : ∀ d ∈ after, ¬ d.carries p) :
    lastEntry p (before ++ e :: after) = some e := by
  rw [lastEntry, List.reverse_append, List.reverse_cons, List.append_assoc, List.find?_append, List.find?_eq_none.mpr]
  · rw [Option.none_or, List.singleton_append, List.find?_cons, he]
  · exact fun d hd => hlast d (List.mem_reverse.mp hd)

/-- A port is carried by no entry, or one of them is the last. -/
theorem carried_or_last (p : UInt16) (l : List Entry) : (∀ d ∈ l, ¬ d.carries p) ∨
    ∃ before e after, l = before ++ e :: after ∧ e.carries p ∧ ∀ d ∈ after, ¬ d.carries p := by
  induction l with
  | nil => exact .inl fun d hd => absurd hd List.not_mem_nil
  | cons d l ih =>
    rcases ih with hno | ⟨before, e, after, rfl, he, hlast⟩
    · by_cases hd : d.carries p
      · exact .inr ⟨[], d, l, rfl, hd, hno⟩
      · exact .inl (List.forall_mem_cons.mpr ⟨hd, hno⟩)
    · exact .inr ⟨d :: before, e, after, rfl, he, hlast⟩

/-- One protocol. -/
theorem ownInfo_iff (h : ∀ e ∈ entries, e.Valid) : OwnInfo entries (loop entries []).info ↔ Separate entries := by
  constructor
  · rintro hown before e after rfl p he hlast
    have hp := hown p
    have hport := isNone_of_carries he
    rw [(find_last h he hlast).1, lastEntry_mid he hlast, Option.map_some, Option.some_inj, seenInfo, seen_mid hport,
      Entry.own, ListeningPortInfo.mk.injEq] at hp
    exact ⟨hp.2, hp.1⟩
  · intro hsep p
    rcases carried_or_last p entries with hno | ⟨before, e, after, rfl, he, hlast⟩
    · rw [(find_none_of_carries h hno).1, lastEntry_none hno]
      rfl
    · have hport := isNone_of_carries he
      obtain ⟨hpkg, hproc⟩ := hsep before e after rfl p he hlast
      rw [(find_last h he hlast).1, lastEntry_mid he hlast, Option.map_some, seenInfo, seen_mid hport, hpkg, hproc]
      rfl

/-! ## The result -/

theorem parsePorts_of (z : Message) (proto : Protocol) :
    (parsePorts (some z) {}).of proto = (loop (z.entries proto) []).info := by
  have hmember : ∀ m, parseMember m [] = (loop ((m.getD none).getD []) []).info := by
    intro m
    rcases m with _ | _ | entries <;> rfl
  cases proto <;> exact hmember _

theorem listening_ports_law (z : Message) (h : ∀ proto, ∀ e ∈ z.entries proto, e.Valid) :
    (∀ proto, OwnInfo (z.entries proto) ((parsePorts (some z) {}).of proto)) ↔ ∀ proto, Separate (z.entries proto) :=
  forall_congr' fun proto => by rw [parsePorts_of, ownInfo_iff (h proto)]

/-- A web server and a second port whose entry has no package. -/
def web : Message :=
  { tcp4 := some (some [⟨some 80, some [110, 103, 105, 110, 120], none⟩, ⟨some 443, none, none⟩])
    tcp6 := none
    udp4 := some none
    udp6 := none }

theorem web_valid (proto : Protocol) : ∀ e ∈ web.entries proto, e.Valid := by
  cases proto with
  | tcp4 =>
    intro e he n hn
    simp only [web, Message.entries, Message.member, Option.getD_some, List.mem_cons, List.not_mem_nil, or_false] at he
    rcases he with rfl | rfl
    · obtain rfl : 80 = n := Option.some.inj hn
      decide
    · obtain rfl : 443 = n := Option.some.inj hn
      decide
  | tcp6 | udp4 | udp6 => exact fun e he => absurd he List.not_mem_nil

theorem listening_ports_law_web : (∀ proto, ∀ e ∈ web.entries proto, e.Valid) ∧
    ((∀ proto, OwnInfo (web.entries proto) ((parsePorts (some web) {}).of proto)) ↔
      ∀ proto, Separate (web.entries proto)) :=
  ⟨web_valid, listening_ports_law web web_valid⟩

/-- Port 443 is stored with the package of the entry before it. -/
theorem package_of_another : ¬ ∀ proto, OwnInfo (web.entries proto) ((parsePorts (some web) {}).of proto) := by
  intro h
  have h443 := h .tcp4 443
  revert h443
  decide

end Ntopng.Hosts.Listening
