/-
  Ntopng.Protocols.MdnsAnswers — what is shown of the answers of a response
  (`_dissectMDNS`, src/NetworkDiscovery.cpp).

  The position in the output, `l`, is declared in the loop over the answers. So the separator
  in front of a name never comes, and every answer is printed where the first one was.

  Proved: what is printed of one answer and where the next one starts (`answers_step`), and by
  induction that of all answers the last one is left (`answers_run`). So a response that can be
  read is shown exactly if it has no second answer (`dissectMDNS_law`).
-/

import Ntopng.Protocols.MdnsNames

namespace Ntopng.Protocols.MdnsAnswers

open Ntopng.Lib.CString Ntopng.Lib.DnsName
open Ntopng.Protocols.Mdns (headerLen ntohs)
open Ntopng.Protocols.MdnsReply (be16)
open Ntopng.Protocols.MdnsDissect Ntopng.Protocols.MdnsResponses Ntopng.Protocols.MdnsNames

variable {buf : Mem} {w s rest a b : List UInt8} {ss : List (List UInt8)} {o n total dataLen : ℕ}

/-! ## The texts of a TXT -/

/-- What `putSeparator` writes. -/
def separator (total : ℕ) : List UInt8 := if total > 0 then [ch ';'] else []

/-- What is copied of the strings, behind `total` bytes of others. -/
def texts : (total : ℕ) → List (List UInt8) → List UInt8
  | _, [] => []
  | total, s :: ss => separator total ++ (s ++ texts (total + (s.length + 1)) ss)

theorem texts_behind (h : 0 < total) : texts total ss = ss.flatMap (ch ';' :: ·) := by
  induction ss generalizing total with
  | nil => rfl
  | cons s ss ih =>
    rw [texts, ih (by omega), separator, if_pos h, List.flatMap_cons]
    rfl

theorem texts_zero (ss : List (List UInt8)) : texts 0 ss = List.intercalate [ch ';'] ss := by
  cases ss with
  | nil => rfl
  | cons s ss =>
    rw [texts, texts_behind (by omega), intercalate_cons]
    rfl

theorem texts_notMem (h : ∀ s ∈ ss, 0 ∉ s) : 0 ∉ texts total ss := by
  induction ss generalizing total with
  | nil => exact List.not_mem_nil
  | cons s ss ih =>
    rw [List.forall_mem_cons] at h
    have hsep : 0 ∉ separator total := by
      unfold separator
      split <;> decide
    rw [texts, List.mem_append, List.mem_append, not_or, not_or]
    exact ⟨hsep, h.1, ih h.2⟩

theorem putSeparator_at (total : ℕ) (hb : 0 < b.length) :
    putSeparator (a ++ b) a.length total =
      some (a.length + (separator total).length, a ++ separator total ++ b.drop (separator total).length) := by
  obtain ⟨x, b, rfl⟩ := List.exists_cons_of_length_pos hb
  unfold putSeparator separator
  split
  · rw [store_at rfl, Option.map_some]
    simp
  · simp

theorem memcpy_at (h : buf.drop o = s ++ rest) (ho : o + s.length ≤ buf.length) (hb : s.length ≤ b.length) :
    memcpy (a ++ b) a.length buf o s.length = some (a ++ s ++ b.drop s.length) := by
  rw [memcpy, if_pos ho, h, List.take_left, storeAll_at rfl hb]

/-- The strings are copied with semicolons between them; one that the packet ends with is only if it is empty. -/
theorem txtLoop_wire (total : ℕ) (h : buf.drop o = wire ss ++ rest) (hn : ss.length < n) (hlen : ∀ s ∈ ss, s.length ≤ 255)
    (hdata : dataLen = total + (wire ss).length) (hfit : a.length + (texts total ss).length < rspLen - 1)
    (hm : (a ++ b).length = rspLen) (hlast : rest = [] → ss = [] ∨ ss.getLast? = some []) :
    txtLoop buf dataLen n o a.length total (a ++ b) =
      some (a.length + (texts total ss).length, a ++ texts total ss ++ b.drop (texts total ss).length) := by
  have hrsp : rspLen = 512 := rfl
  induction ss generalizing n o a b total with
  | nil =>
    obtain ⟨k, rfl⟩ := Nat.exists_eq_succ_of_ne_zero (Nat.ne_of_gt hn)
    have hend : ¬ (o < buf.length ∧ dataLen > total) := by
      rw [hdata]
      simp [wire]
    rw [txtLoop, if_neg hend]
    simp [texts]
  | cons s ss ih =>
    obtain ⟨k, rfl⟩ := Nat.exists_eq_succ_of_ne_zero (Nat.ne_zero_of_lt hn)
    rw [List.forall_mem_cons] at hlen
    rw [wire_cons, List.cons_append, List.append_assoc] at h
    rw [wire_cons, List.length_cons, List.length_append] at hdata
    rw [List.length_cons] at hn
    have hc := get_drop h
    have hlength : (UInt8.ofNat s.length).toNat = s.length := by
      rw [UInt8.toNat_ofNat']
      omega
    have hin : o < buf.length ∧ dataLen > total := ⟨(List.getElem?_eq_some_iff.mp hc).1, by omega⟩
    have hbuf := congrArg List.length h
    simp only [List.length_drop, List.length_cons, List.length_append] at hbuf
    simp only [texts, List.length_append] at hfit hm
    rw [txtLoop, if_pos hin, hc, Option.bind_some, hlength, if_neg (by omega), putSeparator_at total (by omega),
      Option.bind_some]
    dsimp only
    rw [if_neg (by omega)]
    split
    · -- The packet ends here.
      rename_i hend
      have hrest : rest = [] := List.length_eq_zero_iff.mp (by omega)
      have hss : ss = [] := by
        cases ss with
        | nil => rfl
        | cons s' ss =>
          rw [wire_cons, List.length_cons] at hbuf
          omega
      rcases hlast hrest with h0 | h0
      · cases h0
      · rw [hss, List.getLast?_singleton] at h0
        rw [Option.some.inj h0, hss]
        simp [texts]
    · rename_i hgo
      have hcopy : memcpy (a ++ separator total ++ b.drop (separator total).length) (a ++ separator total).length buf (o + 1)
          s.length = some (a ++ separator total ++ s ++ (b.drop (separator total).length).drop s.length) :=
        memcpy_at (drop_succ h) (by omega) (by rw [List.length_drop]; omega)
      rw [List.length_append] at hcopy
      rw [hcopy, Option.bind_some]
      have hdrop : buf.drop (o + 1 + s.length) = wire ss ++ rest := by
        rw [← List.drop_drop, drop_succ h, List.drop_left]
      have hlast' : rest = [] → ss = [] ∨ ss.getLast? = some [] := by
        intro h0
        cases ss with
        | nil => exact .inl rfl
        | cons s' ss =>
          rcases hlast h0 with h1 | h1
          · cases h1
          · rw [List.getLast?_cons_cons] at h1
            exact .inr h1
      have ih := ih (n := k) (a := a ++ separator total ++ s) (b := (b.drop (separator total).length).drop s.length)
        (total + (s.length + 1)) hdrop (by omega) hlen.2 (by omega)
        (by simp only [List.length_append]; omega) (by simp only [List.length_append, List.length_drop]; omega) hlast'
      simp only [List.length_append] at ih
      rw [ih, texts]
      simp only [List.length_append, List.append_assoc, List.drop_drop, Nat.add_assoc]

/-! ## Data -/

theorem readData_txt {alone final : Prop} (h : buf.drop o = wire ss ++ rest) (hlen : ∀ s ∈ ss, s.length ≤ 255)
    (hread : (Data.txt ss).Readable alone final) (hfinal : rest = [] → final)
    (hfit : (Data.txt ss).text.length + 1 < rspLen) :
    ∃ m, readData buf typeTxt (wire ss).length o = some m ∧ cstr m 0 = some (Data.txt ss).text := by
  have hrsp : rspLen = 512 := rfl
  rw [Data.text, ← texts_zero] at hfit ⊢
  have hn : ss.length < buf.length + 1 := by
    have hlength := congrArg List.length h
    rw [List.length_drop, List.length_append] at hlength
    have hwire : ss.length ≤ (wire ss).length := length_le_wire ss
    omega
  have hloop := txtLoop_wire (a := []) (b := zeros) 0 h hn hlen (Nat.zero_add _).symm
    (by rw [List.length_nil]; omega) length_zeros fun h0 => .inr (hread.2 (hfinal h0))
  simp only [List.length_nil, List.nil_append, Nat.zero_add] at hloop
  obtain ⟨x, r, hr⟩ := List.exists_cons_of_length_pos
    (show 0 < (zeros.drop (texts 0 ss).length).length by rw [List.length_drop, length_zeros]; omega)
  refine ⟨texts 0 ss ++ 0 :: r, ?_, scan_append (texts_notMem hread.1) r⟩
  rw [readData, if_neg (by decide), hloop, Option.bind_some, hr, store_at rfl]

/-- What is copied of the data: what is to be shown, unless there is nothing to show. -/
theorem readData_text {x : Data} {offset : ℕ} {alone final : Prop} (hlegal : x.Legal buf offset)
    (hread : x.Readable alone final) (hfit : ∀ ss, x = .txt ss → x.text.length + 1 < rspLen)
    (h : buf.drop o = x.bytes ++ rest) (hfinal : rest = [] → final) :
    ∃ m d, readData buf x.type.toUInt8 x.bytes.length o = some m ∧ Text m ∧ cstr m 0 = some d ∧ x.text <+: d ∧
      (¬ alone → d = x.text) := by
  obtain ⟨m, hm, htext⟩ : Reads (readData buf x.type.toUInt8 x.bytes.length o) Text := readData_ok _ _ _
  have hknown : (∃ m', readData buf x.type.toUInt8 x.bytes.length o = some m' ∧ cstr m' 0 = some x.text) →
      ∃ m d, readData buf x.type.toUInt8 x.bytes.length o = some m ∧ Text m ∧ cstr m 0 = some d ∧ x.text <+: d ∧
        (¬ alone → d = x.text) := by
    rintro ⟨m', hm', hd⟩
    rw [hm, Option.some.injEq] at hm'
    subst hm'
    exact ⟨m, x.text, hm, htext, hd, List.prefix_rfl, fun _ => rfl⟩
  cases x with
  | ptr n =>
    rcases hread with ⟨hspelled, hlabels⟩ | ⟨halone, hroot⟩
    · exact hknown (readData_ptr hlegal.1 hlegal.2 hspelled hlabels h n.bytes.length)
    · -- Of the root name nothing is to be seen, whatever is printed.
      obtain ⟨d, hd, -⟩ := htext.read
      refine ⟨m, d, hm, htext, hd, ?_, fun hnot => absurd halone hnot⟩
      rw [Data.text, hroot]
      exact List.nil_prefix
  | txt ss => exact hknown (readData_txt h hlegal.2.1 hread hfinal (hfit ss rfl))

/-! ## Output -/

variable {out rspbuf d : Mem}

theorem print_at (h : Text rspbuf) (hd : cstr rspbuf 0 = some d) (hout : (a ++ b).length = outLen) (ha : a.length < rspLen) :
    ∃ r, print (a ++ b) a.length rspbuf =
        some (a.length + (separator a.length ++ d).length, a ++ (separator a.length ++ d) ++ 0 :: r) ∧
      (a ++ (separator a.length ++ d) ++ 0 :: r).length = outLen := by
  have hrsp : rspLen = 512 := rfl
  have hlen : outLen = 1024 := rfl
  obtain ⟨s, hs, hlt, -⟩ := h.read
  rw [hd, Option.some.injEq] at hs
  have hsep : (separator a.length).length ≤ 1 := by
    unfold separator
    split <;> simp
  have hsize : ((a ++ b).length + 2 ^ 32 - a.length) % 2 ^ 32 = outLen - a.length := by omega
  have htake : (separator a.length ++ d).take (outLen - a.length - 1) = separator a.length ++ d := by
    refine List.take_of_length_le ?_
    rw [List.length_append, hs]
    omega
  have hb : ((separator a.length ++ d) ++ [0]).length ≤ b.length := by
    rw [List.length_append] at hout
    rw [List.length_append, List.length_append, List.length_singleton, hs]
    omega
  refine ⟨b.drop ((separator a.length ++ d) ++ [0]).length, ?_, ?_⟩
  · rw [print, hd, Option.bind_some]
    dsimp only
    rw [hsize, ← separator, snprintf, if_neg (by omega), htake, storeAll_at rfl hb, Option.map_some]
    simp only [List.append_assoc, List.singleton_append]
  · simp only [List.length_append, List.length_cons, List.length_drop, List.length_nil] at hout hb ⊢
    omega

/-- Name and data of an answer, in front of whatever was in the output. -/
theorem print_both {name : List UInt8} {m m' : Mem} (hm : Text m) (hname : cstr m 0 = some name) (hm' : Text m')
    (hd : cstr m' 0 = some d) (hout : Output out) :
    ∃ p p', print out 0 m = some p ∧ print p.2 p.1 m' = some p' ∧ Output p'.2 ∧
      cstr p'.2 0 = some (name ++ (separator name.length ++ d)) := by
  obtain ⟨s, hs, hlt, hn⟩ := hm.read
  rw [hname, Option.some.injEq] at hs
  obtain ⟨s', hs', -, hn'⟩ := hm'.read
  rw [hd, Option.some.injEq] at hs'
  rw [← hs] at hlt hn
  rw [← hs'] at hn'
  obtain ⟨r, hprint, hlen⟩ := print_at (a := []) hm hname hout.1 (by decide)
  obtain ⟨r', hprint', hlen'⟩ := print_at (a := name) (b := 0 :: r) hm' hd hlen hlt
  have hfirst : (0 : ℕ) + (separator 0 ++ name).length = name.length := Nat.zero_add _
  refine ⟨(name.length, name ++ 0 :: r), _, ?_, hprint', ⟨hlen', by simp⟩, ?_⟩
  · rw [← hfirst]
    exact hprint
  · refine scan_append ?_ r'
    have hsep : 0 ∉ separator name.length := by
      unfold separator
      split <;> decide
    rw [List.mem_append, List.mem_append, not_or, not_or]
    exact ⟨hn, hsep, hn'⟩

/-! ## One answer -/

theorem ntohs_be16 {v : UInt16} (h : buf.drop o = be16 v ++ rest) : ntohs buf o = some v.toNat := by
  have hhigh := get_drop h
  have hlow := get_drop (drop_succ h)
  have hv := v.toNat_lt
  rw [ntohs, hhigh, hlow]
  simp only [Option.bind_eq_bind, Option.bind_some, UInt16.toNat_toUInt8, UInt16.toNat_shiftRight, UInt16.reduceToNat,
    Nat.shiftRight_eq_div_pow, Nat.reduceMod, Nat.reducePow, Option.some.injEq]
  omega

theorem length_ending (n : WireName) : 0 < n.ending.length ∧ n.ending.length ≤ 2 := by
  cases n with
  | plain ls => exact ⟨Nat.zero_lt_one, Nat.le_succ 1⟩
  | pointer ls target r => exact ⟨Nat.zero_lt_two, Nat.le_refl 2⟩

theorem length_data {d : Data} {offset : ℕ} (h : d.Legal buf offset) : 0 < d.bytes.length ∧ d.bytes.length < 2 ^ 16 := by
  cases d with
  | ptr n =>
    have hending := length_ending n
    obtain ⟨ls, hname⟩ := name_labels n
    have hlen := h.1.2
    rw [hname, wire_append, List.length_append] at hlen
    rw [Data.bytes, WireName.bytes, List.length_append]
    omega
  | txt ss =>
    have hpos := List.length_pos_iff.mpr h.1
    have hle := length_le_wire ss
    exact ⟨Nat.lt_of_lt_of_le hpos hle, h.2.2⟩

theorem be16_type (d : Data) : be16 d.type = [0, d.type.toUInt8] := by
  refine be16_small ?_
  cases d with
  | ptr n => exact (by decide : (12 : UInt16).toNat < 256)
  | txt ss => exact (by decide : (16 : UInt16).toNat < 256)

/-- What is looked at behind the name. -/
theorem read_fixed {x : Answer} {offset : ℕ} (hlegal : x.data.Legal buf offset)
    (h : buf.drop o = x.fixed ++ (x.data.bytes ++ rest)) :
    buf[o + 1]? = some x.data.type.toUInt8 ∧ ntohs buf (o + 8) = some x.data.bytes.length ∧
      buf.drop (o + 10) = x.data.bytes ++ rest ∧ o + 10 < buf.length := by
  have hlength := length_data hlegal
  have hfixed : buf.drop o = 0 :: x.data.type.toUInt8 :: (be16 x.rrClass ++ be16 x.ttlHigh ++ be16 x.ttlLow ++
      be16 (UInt16.ofNat x.data.bytes.length) ++ (x.data.bytes ++ rest)) := by
    rw [h, Answer.fixed, be16_type]
    rfl
  have hlast : buf.drop (o + 8) = be16 (UInt16.ofNat x.data.bytes.length) ++ (x.data.bytes ++ rest) := by
    rw [← List.drop_drop, hfixed]
    rfl
  have hdata : buf.drop (o + 10) = x.data.bytes ++ rest := by
    rw [← List.drop_drop, hfixed]
    rfl
  have htoNat : (UInt16.ofNat x.data.bytes.length).toNat = x.data.bytes.length := by
    rw [UInt16.toNat_ofNat']
    omega
  refine ⟨get_drop (drop_succ hfixed), by rw [ntohs_be16 hlast, htoNat], hdata, ?_⟩
  have hlen := congrArg List.length hdata
  rw [List.length_drop, List.length_append] at hlen
  omega

/-- Where an answer is read from. -/
structure Met (buf : Mem) (o : ℕ) (x : Answer) (rest : List UInt8) (w : List UInt8) : Prop where
  start : Start w x.name.labels
  drop : buf.drop o = w ++ (x.name.ending ++ (x.fixed ++ (x.data.bytes ++ rest)))

/-- What is copied of the name. -/
def copied (x : Answer) (w : List UInt8) : List UInt8 := (w ++ wire x.name.behind).map dotted

/-- An answer is printed over what was there, and the next starts where it ends. -/
theorem answers_step {x : Answer} {offset offset' : ℕ} {alone final : Prop} (hlegal : x.name.Legal)
    (hplaced : x.name.Placed buf offset) (hspelled : x.name.Spelled) (hmet : Met buf o x rest w)
    (hdata : x.data.Legal buf offset') (hread : x.data.Readable alone final) (hfinal : rest = [] → final)
    (hfit : ∀ ss, x.data = .txt ss → x.data.text.length + 1 < rspLen) (hout : Output out) :
    ∃ o' out' d, answers buf (n + 1) o out = answers buf n o' out' ∧ Output out' ∧ buf.drop o' = rest ∧
      cstr out' 0 = some (copied x w ++ (separator (copied x w).length ++ d)) ∧ x.data.text <+: d ∧
      (¬ alone → d = x.data.text) := by
  have hending := length_ending x.name
  have hlength := length_data hdata
  have hrest : x.name.ending = [0] ∨ ∃ r, x.fixed ++ (x.data.bytes ++ rest) = 0 :: r := by
    rw [Answer.fixed, be16_type]
    exact .inr ⟨_, rfl⟩
  obtain ⟨m, hname, -, htext⟩ := readName_wireName hlegal hplaced (skipped_direct hspelled.direct) (name_direct hspelled.direct ▸ passes_spelled hspelled)
    hmet.start hmet.drop hrest length_zeros
  obtain ⟨r, hr, hm⟩ : Reads (readName buf o zeros) fun r => Text r.2 := readName_ok o length_zeros
  rw [hname, Option.some.injEq] at hr
  subst hr
  -- Behind the name.
  obtain ⟨p, hp⟩ : ∃ p, p = o + w.length + (x.name.ending.length - 1) := ⟨_, rfl⟩
  rw [← hp] at hname
  have hfixed : buf.drop (p + 1) = x.fixed ++ (x.data.bytes ++ rest) := by
    have hplace : p + 1 = o + (w.length + x.name.ending.length) := by omega
    rw [hplace, ← List.drop_drop, hmet.drop, ← List.drop_drop, List.drop_left, List.drop_left]
  obtain ⟨htype, hlen, hdrop, hin⟩ := read_fixed hdata hfixed
  obtain ⟨m', d, hm', hmt', hd, hprefix, halone⟩ := readData_text hdata hread hfit hdrop hfinal
  obtain ⟨p1, p2, hprint, hprint', hout', hcstr⟩ := print_both hm (htext rfl) hmt' hd hout
  have hknown : ¬ (x.data.type.toUInt8 ≠ typeTxt ∧ x.data.type.toUInt8 ≠ typePtr) := by
    cases x.data with
    | ptr n' => exact fun h => h.2 rfl
    | txt ss => exact fun h => h.1 rfl
  refine ⟨p + 1 + 10 + x.data.bytes.length, p2.2, d, ?_, hout', ?_, hcstr, hprefix, halone⟩
  · have ho : o < buf.length := by omega
    have hbefore : ¬ p + 9 + 2 ≥ buf.length := by omega
    rw [answers, if_pos ho, hname, Option.bind_some]
    dsimp only
    rw [if_neg hbefore, htype, Option.bind_some, if_neg hknown, hprint, Option.bind_some, hlen, Option.bind_some,
      if_pos hlength.1, hm', Option.bind_some, hprint', Option.bind_some]
  · rw [← List.drop_drop, hdrop, List.drop_left]

/-! ## Where answers are met -/

theorem met_exact {x : Answer} (h : buf.drop o = x.bytes ++ rest) : Met buf o x rest (wire x.name.labels) := by
  refine ⟨.exact _, ?_⟩
  rw [h, Answer.bytes, WireName.bytes]
  simp only [List.append_assoc]

theorem wire_ne_nil {ls : Name} (h : ls ≠ []) : wire ls ≠ [] := by
  obtain ⟨l, ls, rfl⟩ := List.exists_cons_of_ne_nil h
  exact List.cons_ne_nil _ _

/-- The first answer is met at a place from which something of its name is copied. -/
theorem met_ahead {x : Answer} {r : Response} (hfirst : r.FirstReadable) (hx : r.answers.head? = some x)
    (hlegal : x.name.Legal) (hspelled : x.name.Spelled) (h : Ahead buf o (x.bytes ++ rest) r.questions) :
    ∃ w, Met buf o x rest w ∧ w ++ wire x.name.behind ≠ [] := by
  have hname := name_direct hspelled.direct
  unfold Response.FirstReadable at hfirst
  generalize r.questions = qs at h hfirst
  cases h with
  | late hdrop =>
    obtain ⟨l, ls, hls⟩ := List.exists_cons_of_ne_nil (hfirst x hx)
    refine ⟨l ++ wire ls, ⟨hls ▸ .late l ls, ?_⟩, ?_⟩
    · rw [hdrop, Answer.bytes, WireName.bytes, hls, wire_cons]
      simp only [List.append_assoc, List.cons_append, List.tail_cons]
    · have hl : l ∈ x.name.name := by
        rw [hname, hls]
        exact List.mem_append_left _ (List.mem_cons_self ..)
      have hpos := List.length_pos_iff.mp (hlegal.1 l hl).1
      exact List.append_ne_nil_of_left_ne_nil (List.append_ne_nil_of_left_ne_nil hpos _) _
  | early _ y hy hdrop =>
    refine ⟨y :: wire x.name.labels, ⟨.early y _ hy, ?_⟩, List.cons_ne_nil _ _⟩
    rw [hdrop, Answer.bytes, WireName.bytes]
    simp only [List.append_assoc, List.cons_append]
  | exact q hq hdrop =>
    refine ⟨wire x.name.labels, met_exact hdrop, ?_⟩
    rcases hfirst with hlabels | ⟨-, hfirst⟩
    · exact absurd (root_labels hq) hlabels.1
    · rw [← wire_append, ← hname]
      exact wire_ne_nil (hfirst rfl x hx)

/-! ## All answers -/

/-- A text that is left by an answer, behind at most one byte. -/
def Left (x : Answer) (out : Mem) : Prop :=
  Output out ∧ ∃ text, cstr out 0 = some text ∧ text.length ≤ (joined x.name.name).length + x.data.text.length + 2

theorem left_exact {x : Answer} (hspelled : x.name.Spelled) (hout : Output out)
    (h : cstr out 0 = some (copied x (wire x.name.labels) ++
      (separator (copied x (wire x.name.labels)).length ++ x.data.text))) : Left x out := by
  obtain ⟨pre, hpre, hlen⟩ := spelled_text hspelled (.exact _)
  rw [copied, hpre] at h
  have hsep : (separator (pre ++ joined x.name.name).length).length ≤ 1 := by
    unfold separator
    split <;> simp
  refine ⟨hout, _, h, ?_⟩
  simp only [List.length_append] at hsep ⊢
  omega

theorem final_nil {x : Answer} {as : List Answer} {more : List UInt8} (h : (x :: as).flatMap Answer.bytes ++ more = []) :
    x :: as = [] ∧ more = [] := by
  have hlength := congrArg List.length h
  have hpos := (length_ending x.name).1
  simp only [List.flatMap_cons, Answer.bytes, WireName.bytes, List.length_append, List.length_nil] at hlength
  omega

/-- Of answers that are met at their start the last one is left. -/
theorem answers_run {x : Answer} {as : List Answer} {more : List UInt8} {offset : ℕ} {alone : Prop} (hmany : ¬ alone)
    (hlegal : AnswersLegal buf offset (x :: as)) (hread : AnswersReadable alone more (x :: as))
    (hfit : ∀ x' ∈ x :: as, ∀ ss, x'.data = .txt ss → x'.data.text.length + 1 < rspLen)
    (h : buf.drop o = (x :: as).flatMap Answer.bytes ++ more) (hout : Output out) :
    Reads (answers buf (as.length + 1) o out) (Left ((x :: as).getLast (List.cons_ne_nil x as))) := by
  induction as generalizing x o out offset with
  | nil =>
    obtain ⟨hname, hplaced, hdata, -⟩ := hlegal
    rw [List.flatMap_singleton] at h
    obtain ⟨o', out', d, hstep, hout', -, hcstr, -, hd⟩ := answers_step (n := 0) hname hplaced hread.1 (met_exact h) hdata
      hread.2.1 (fun h0 => ⟨rfl, h0⟩) (hfit x (List.mem_cons_self ..)) hout
    rw [List.length_nil, Nat.zero_add, hstep]
    exact reads_some (left_exact hread.1 hout' (hd hmany ▸ hcstr))
  | cons x' as ih =>
    obtain ⟨hname, hplaced, hdata, hlegal'⟩ := hlegal
    obtain ⟨hspelled, hdread, hread'⟩ := hread
    rw [List.flatMap_cons, List.append_assoc] at h
    obtain ⟨o', out', -, hstep, hout', hdrop, -, -, -⟩ := answers_step (n := as.length + 1) hname hplaced hspelled
      (met_exact h) hdata hdread final_nil (hfit x (List.mem_cons_self ..)) hout
    have hrun := ih hlegal' hread' (fun y hy => hfit y (List.mem_cons_of_mem _ hy)) hdrop hout'
    rw [List.length_cons, hstep, List.getLast_cons (List.cons_ne_nil x' as)]
    exact hrun

/-! ## What is shown -/

theorem shows_mem {text : List UInt8} {l : List (List UInt8 × List UInt8)} {p : List UInt8 × List UInt8}
    (h : Shows text l) (hp : p ∈ l) : p.1.length + 1 + p.2.length ≤ text.length := by
  induction l generalizing text with
  | nil => cases hp
  | cons a l ih =>
    cases l with
    | nil =>
      obtain ⟨s, t, rfl⟩ := h
      rw [List.mem_singleton.mp hp]
      simp only [List.length_append, List.length_cons]
      omega
    | cons b l =>
      obtain ⟨s, t, rfl, h⟩ := h
      simp only [List.length_append, List.length_cons]
      rcases List.mem_cons.mp hp with rfl | hp
      · omega
      · have := ih h hp
        omega

/-- A text that shows an answer in front of others has both semicolons besides these. -/
theorem shows_behind {text : List UInt8} {a b p : List UInt8 × List UInt8} {l : List (List UInt8 × List UInt8)}
    (h : Shows text (a :: b :: l)) (hp : p ∈ b :: l) : p.1.length + p.2.length + 2 < text.length := by
  obtain ⟨s, t, rfl, h⟩ := h
  have hlast := shows_mem h hp
  simp only [List.length_append, List.length_cons]
  omega

/-- A text that one of the later answers leaves does not show the first one. -/
theorem left_hides {x x' : Answer} {as : List Answer} {text : List UInt8}
    (h : Left ((x' :: as).getLast (List.cons_ne_nil x' as)) out) (hcstr : cstr out 0 = some text) :
    ¬ Shows text ((x :: x' :: as).map fun x => (joined x.name.name, x.data.text)) := by
  obtain ⟨-, text', hcstr', hlen⟩ := h
  rw [hcstr, Option.some.injEq] at hcstr'
  subst hcstr'
  intro hshows
  have hlast := shows_behind hshows (List.mem_map_of_mem (f := fun x : Answer => (joined x.name.name, x.data.text))
    (List.getLast_mem (List.cons_ne_nil x' as)))
  dsimp only at hlast
  omega

/-- The text of an answer shows it, if there is something of a name in front of the data. -/
theorem copied_shows {x : Answer} {d : List UInt8} (hspelled : x.name.Spelled) (hstart : Start w x.name.labels)
    (hsome : w ++ wire x.name.behind ≠ []) (hd : x.data.text <+: d) :
    Shows (copied x w ++ (separator (copied x w).length ++ d)) [(joined x.name.name, x.data.text)] := by
  obtain ⟨pre, hpre, -⟩ := spelled_text hspelled hstart
  obtain ⟨t, rfl⟩ := hd
  have hsep : separator (copied x w).length = [ch ';'] := by
    refine if_pos ?_
    rw [copied, List.length_map]
    exact List.length_pos_iff.mpr hsome
  refine ⟨pre, t, ?_⟩
  rw [hsep, copied, hpre]
  simp only [List.append_assoc, List.singleton_append]

/-! ## Responses -/

section

variable (r : Response)

theorem header_reads (hcounts : r.questions.length < 2 ^ 16 ∧ r.answers.length < 2 ^ 16) :
    ntohs r.bytes 4 = some r.questions.length ∧ ntohs r.bytes 6 = some r.answers.length ∧
      r.bytes.drop 13 = r.body.tail ∧ headerLen ≤ r.bytes.length := by
  have hquestions : (UInt16.ofNat r.questions.length).toNat = r.questions.length := by
    rw [UInt16.toNat_ofNat']
    omega
  have hanswers : (UInt16.ofNat r.answers.length).toNat = r.answers.length := by
    rw [UInt16.toNat_ofNat']
    omega
  refine ⟨?_, ?_, ?_, ?_⟩
  · rw [← hquestions]
    exact ntohs_be16 rfl
  · rw [← hanswers]
    exact ntohs_be16 rfl
  · rw [← List.drop_one]
    rfl
  · rw [Response.bytes, List.length_append]
    exact Nat.le_add_right 12 _

variable {r} {packet : Datagram}

/-- With answers that can be read the loop over them starts at a place from which something of the first name is
    copied. -/
theorem dissectMDNS_met {x : Answer} {as : List Answer} (hbytes : r.bytes = packet.val) (hwf : r.WellFormed)
    (hread : r.Readable) (hanswers : r.answers = x :: as) (hrsp : rspbuf.length = rspLen) (hout : out.length = outLen) :
    ∃ o out1 w, dissectMDNS packet rspbuf out = answers packet.val (as.length + 1) o out1 ∧ Output out1 ∧
      Met packet.val o x (as.flatMap Answer.bytes ++ r.more) w ∧ w ++ wire x.name.behind ≠ [] := by
  obtain ⟨hnq, hna, hbody, hlen⟩ := header_reads r hwf.counts
  rw [hbytes] at hnq hna hbody hlen
  have hpos : 0 < out.length := hout ▸ (by decide : 0 < outLen)
  obtain ⟨out1, hstore, hout1⟩ := store_reads hpos 0
  have hsome : r.answers ≠ [] := hanswers ▸ List.cons_ne_nil x as
  have hcount : r.answers.length ≠ 0 := fun h0 => hsome (List.length_eq_zero_iff.mp h0)
  have hfirst := hread.first hsome
  have hquestion : ∀ q ∈ r.questions.head?, q.name.labels ≠ [] ∧ q.Skipped ∨ q.Root := by
    intro q hq
    unfold Response.FirstReadable at hfirst
    cases hqs : r.questions with
    | nil => rw [hqs] at hq; cases hq
    | cons q' qs =>
      rw [hqs] at hq hfirst
      cases hq
      exact hfirst.imp_right And.left
  have hwfq := hwf.questions
  have hlegal := hwf.answers
  have hspelled := hread.answers
  rw [hanswers] at hlegal hspelled
  rw [hbytes] at hwfq
  obtain ⟨e, m, hskip, hahead⟩ := skipQueries_all hwfq hquestion (hread.questions hsome) hbody hrsp
  rw [hanswers, List.flatMap_cons, List.append_assoc] at hahead
  obtain ⟨w, hmet, hw⟩ := met_ahead hfirst (hanswers ▸ rfl) hlegal.1 hspelled.1 hahead
  refine ⟨e, out1, w, ?_, ⟨hout1.1.trans hout, hout1.2⟩, hmet, hw⟩
  rw [dissectMDNS, hstore, Option.bind_some, if_neg (Nat.not_lt.mpr hlen), hnq, Option.bind_some, hna, Option.bind_some,
    if_neg hcount, hskip, Option.bind_some, hanswers, List.length_cons]

/-- A single answer that can be read is shown. -/
theorem dissectMDNS_single {x : Answer} (hbytes : r.bytes = packet.val) (hwf : r.WellFormed) (hfits : r.Fits)
    (hread : r.Readable) (hanswers : r.answers = [x]) (hrsp : rspbuf.length = rspLen) (hout : out.length = outLen) :
    Reads (dissectMDNS packet rspbuf out) fun out' => ∃ text, cstr out' 0 = some text ∧ Shows text r.pieces := by
  obtain ⟨o, out1, w, hrun, hout1, hmet, hw⟩ := dissectMDNS_met hbytes hwf hread hanswers hrsp hout
  have hlegal := hwf.answers
  have hreada := hread.answers
  rw [Response.Fits, hanswers] at hfits
  rw [hbytes, hanswers] at hlegal
  rw [hanswers] at hreada
  obtain ⟨o', out', d, hstep, -, -, hcstr, hd, -⟩ := answers_step (n := 0) hlegal.1 hlegal.2.1 hreada.1 hmet hlegal.2.2.1
    hreada.2.1 (fun h0 => ⟨rfl, h0⟩) (hfits x (List.mem_singleton_self x)) hout1
  rw [hrun, List.length_nil, Nat.zero_add, hstep, Response.pieces, hanswers]
  exact reads_some ⟨_, hcstr, copied_shows hreada.1 hmet.start hw hd⟩

/-- Of two or more answers that can be read, the last one is left. -/
theorem dissectMDNS_last {x x' : Answer} {as : List Answer} (hbytes : r.bytes = packet.val) (hwf : r.WellFormed)
    (hfits : r.Fits) (hread : r.Readable) (hanswers : r.answers = x :: x' :: as) (hrsp : rspbuf.length = rspLen)
    (hout : out.length = outLen) :
    Reads (dissectMDNS packet rspbuf out) (Left ((x' :: as).getLast (List.cons_ne_nil x' as))) := by
  obtain ⟨o, out1, w, hrun, hout1, hmet, -⟩ := dissectMDNS_met hbytes hwf hread hanswers hrsp hout
  have hmany : ¬ r.answers.length = 1 := by
    rw [hanswers]
    exact fun h => Nat.succ_ne_zero _ (Nat.succ.inj h)
  obtain ⟨hname, hplaced, hdata, hlegal⟩ := hanswers ▸ hbytes ▸ hwf.answers
  have hreada := hread.answers
  rw [Response.Fits, hanswers] at hfits
  generalize (r.answers.length = 1) = alone at hmany hreada
  rw [hanswers] at hreada
  obtain ⟨hspelled, hdread, hreada⟩ := hreada
  obtain ⟨o', out', -, hstep, hout', hdrop, -, -, -⟩ := answers_step (n := as.length + 1) hname hplaced hspelled hmet hdata
    hdread final_nil (hfits x (List.mem_cons_self ..)) hout1
  rw [hrun, List.length_cons, hstep]
  exact answers_run hmany hlegal hreada (fun y hy => hfits y (List.mem_cons_of_mem _ hy)) hdrop hout'

end

/-- For every packet the reading ends, within the packet and the buffers, and leaves a string. Of a response that
    can be read it shows all answers if there is no second one. -/
theorem dissectMDNS_law (packet : Datagram) {rspbuf out : Mem} (hrsp : rspbuf.length = rspLen) (hout : out.length = outLen) :
    ∃ out' text, dissectMDNS packet rspbuf out = some out' ∧ out'.length = outLen ∧ cstr out' 0 = some text ∧
      ∀ r : Response, r.bytes = packet.val → r.WellFormed → r.Fits → r.Readable →
        (Shows text r.pieces ↔ r.answers.length ≤ 1) := by
  obtain ⟨out', hrun, hlen, hnul⟩ := dissectMDNS_ok packet hrsp hout
  obtain ⟨text, hcstr, -⟩ := cstr_some (terminated_iff.mpr (show 0 ∈ out'.drop 0 from hnul))
  refine ⟨out', text, hrun, hlen, hcstr, fun r hbytes hwf hfits hread => ?_⟩
  cases hanswers : r.answers with
  | nil =>
    rw [Response.pieces, hanswers]
    exact iff_of_true trivial (Nat.zero_le 1)
  | cons x as =>
    cases as with
    | nil =>
      obtain ⟨out1, hrun1, text', hcstr', hshows⟩ := dissectMDNS_single hbytes hwf hfits hread hanswers hrsp hout
      rw [hrun, Option.some.injEq] at hrun1
      subst hrun1
      rw [hcstr, Option.some.injEq] at hcstr'
      subst hcstr'
      exact iff_of_true hshows (Nat.le_refl 1)
    | cons x' as =>
      obtain ⟨out1, hrun1, hleft⟩ := dissectMDNS_last hbytes hwf hfits hread hanswers hrsp hout
      rw [hrun, Option.some.injEq] at hrun1
      subst hrun1
      rw [Response.pieces, hanswers]
      exact iff_of_false (left_hides hleft hcstr) (by simp)

/-- A question for `x.y`, and the answer `z.x.y`, with pointers to the name in the question. -/
def pointed : Response :=
  let asked : WireName := .plain [[ch 'x'], [ch 'y']]
  ⟨0, 0x8400, 0, 0, [⟨asked, 12, 1⟩], [⟨.pointer [] 12 asked, 1, 0, 120, .ptr (.pointer [[ch 'z']] 12 asked)⟩], []⟩

theorem pointed_wellFormed : pointed.WellFormed := by
  refine ⟨by decide, ⟨⟨by decide, by decide⟩, trivial, trivial⟩, ?_⟩
  refine ⟨⟨by decide, by decide⟩, ⟨by decide, by decide, by decide, trivial⟩, ⟨⟨by decide, by decide⟩, ?_⟩, trivial⟩
  exact ⟨by decide, by decide, by decide, trivial⟩

theorem pointed_readable : pointed.Readable := by
  refine ⟨fun _ => .inl ⟨List.cons_ne_nil _ _, ?_⟩, fun _ => List.forall_mem_nil _, ?_⟩
  · exact ⟨trivial, by simp [WireName.labels, WireName.behind, Passes, ch], .inl rfl, by decide, by decide⟩
  · have hnear : 12 < 256 := by decide
    refine ⟨⟨⟨hnear, trivial⟩, ?_, ?_⟩, .inl ⟨⟨⟨hnear, trivial⟩, ?_, ?_⟩, List.cons_ne_nil _ _⟩, trivial⟩
    all_goals simp [WireName.name, Clear, ch]

theorem dissectMDNS_pointed : ∃ out' text,
    dissectMDNS ⟨pointed.bytes, by decide⟩ zeros (List.replicate outLen 0) = some out' ∧ cstr out' 0 = some text ∧
      Shows text pointed.pieces := by
  obtain ⟨out', text, hrun, -, hcstr, hshows⟩ :=
    dissectMDNS_law ⟨pointed.bytes, by decide⟩ length_zeros (List.length_replicate (n := outLen))
  have hfits : pointed.Fits := by
    intro x hx ss hss
    rw [List.mem_singleton.mp hx] at hss
    cases hss
  exact ⟨out', text, hrun, hcstr, (hshows pointed rfl pointed_wellFormed hfits pointed_readable).mpr (Nat.le_refl 1)⟩

/-- The answers `b` for `a` and `d` for `c`. -/
def pair : Response :=
  ⟨0, 0x8400, 0, 0, [], [⟨.plain [[ch 'a']], 1, 0, 120, .ptr (.plain [[ch 'b']])⟩,
    ⟨.plain [[ch 'c']], 1, 0, 120, .ptr (.plain [[ch 'd']])⟩], []⟩

/-- The first answer is overwritten. -/
theorem first_answer_lost : pair.WellFormed ∧ pair.Fits ∧
    ∃ text, (dissectMDNS ⟨pair.bytes, by decide⟩ zeros (List.replicate outLen 0)).bind (cstr · 0) = some text ∧
      ¬ Shows text pair.pieces := by
  refine ⟨⟨by decide, trivial, ?_⟩, ?_, [ch '.', ch 'c', ch ';', ch 'd'], by decide +kernel, ?_⟩
  · exact ⟨⟨by decide, by decide⟩, trivial, ⟨⟨by decide, by decide⟩, trivial⟩, ⟨by decide, by decide⟩, trivial,
      ⟨⟨by decide, by decide⟩, trivial⟩, trivial⟩
  · intro x hx ss hss
    rcases List.mem_pair.mp hx with rfl | rfl <;> cases hss
  · intro h
    have hlong := shows_behind h (List.mem_singleton_self _)
    exact absurd hlong (by decide)

end Ntopng.Protocols.MdnsAnswers
