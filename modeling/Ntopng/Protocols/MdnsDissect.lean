/-
  Ntopng.Protocols.MdnsDissect — replies to the MDNS questions of the network discovery
  (`_dissectMDNS`, `queueMDNSResponse`, src/NetworkDiscovery.cpp).

  Names are copied byte by byte into a work buffer on the stack, lengths of labels as dots.
  Behind a pointer the copy goes on where it leads (`follow`), and comes back. The name and
  the data of an answer are then printed into the buffer of the caller.

  `none` is a read outside of the packet, a write outside of a buffer, or a loop that does not
  end. A packet comes in a datagram, so that no offset reaches 2^16. The work buffer holds
  what was on the stack. What is traced is left out, and so is the lock of the queue.

  Proved (`dissectMDNS_ok`): for every packet none of these happens, and a string is left in
  the buffer of the caller.
-/

import Ntopng.Lib.CString
import Ntopng.Protocols.Mdns

namespace Ntopng.Protocols.MdnsDissect

open Ntopng.Lib.CString
open Ntopng.Protocols.Mdns (headerLen ntohs ntohs_some)

abbrev Datagram := { m : Mem // m.length < 2 ^ 16 }

/-- `sizeof(rspbuf)` -/
def rspLen : ℕ := 512

/-! ## Names -/

/-- Behind a pointer: where the name ends in the work buffer. -/
def follow (buf : Mem) : ℕ → (newOffset idx : ℕ) → Mem → Option (ℕ × Mem)
  | 0, _, _, _ => none
  | n + 1, newOffset, idx, rspbuf =>
    if idx < rspLen - 1 ∧ newOffset < buf.length then
      buf[newOffset]?.bind fun c =>
        if c = 0 then some (idx, rspbuf)
        else if c < 32 then (store rspbuf idx (ch '.')).bind fun rspbuf => follow buf n (newOffset + 1) (idx + 1) rspbuf
        else if c = 0xC0 then
          if newOffset + 1 ≥ buf.length then some (idx, rspbuf)
          else
            buf[newOffset + 1]?.bind fun t =>
              if t.toNat ≤ newOffset then some (idx, rspbuf) else follow buf n t.toNat idx rspbuf
        else (store rspbuf idx c).bind fun rspbuf => follow buf n (newOffset + 1) (idx + 1) rspbuf
    else some (idx, rspbuf)

/-- Every round goes to a later place, below 256 unless a byte is copied. -/
def followRounds : ℕ := 256 * 512

structure Walk where
  offset : ℕ
  idx : ℕ
  dissectedPtr : Bool
  rspbuf : Mem

/-- Behind a pointer that the packet ends in there is offset 0. -/
def pointerAt (buf : Mem) (offset : ℕ) : Option ℕ :=
  if offset + 1 < buf.length then buf[offset + 1]?.map UInt8.toNat else some 0

/-- The loop over a name, the same in all three places. -/
def walk (buf : Mem) : ℕ → Walk → Option Walk
  | 0, _ => none
  | n + 1, w =>
    if w.offset < buf.length ∧ w.idx < rspLen - 1 then
      buf[w.offset]?.bind fun c =>
        if c = 0 then some { w with offset := if w.dissectedPtr then w.offset - 1 else w.offset }
        else if c < 32 then
          (store w.rspbuf w.idx (ch '.')).bind fun rspbuf => walk buf n ⟨w.offset + 1, w.idx + 1, false, rspbuf⟩
        else if c = 0xC0 then
          (pointerAt buf w.offset).bind fun newOffset =>
            (follow buf followRounds newOffset w.idx w.rspbuf).bind fun r =>
              walk buf n ⟨w.offset + 2, r.1 + 1, true, r.2⟩
        else (store w.rspbuf w.idx c).bind fun rspbuf => walk buf n ⟨w.offset + 1, w.idx + 1, false, rspbuf⟩
    else some w

/-- A name from `offset` on, with its NUL: where it ends in the packet, and the work buffer. -/
def readName (buf : Mem) (offset : ℕ) (rspbuf : Mem) : Option (ℕ × Mem) :=
  (walk buf rspLen ⟨offset, 0, false, rspbuf⟩).bind fun w =>
    (store w.rspbuf (if w.idx ≥ rspLen - 1 then rspLen - 1 else w.idx) 0).map fun rspbuf => (w.offset, rspbuf)

def skipQueries (buf : Mem) : (numQueries : ℕ) → (offset : ℕ) → Mem → Option (ℕ × Mem)
  | 0, offset, rspbuf => some (offset, rspbuf)
  | n + 1, offset, rspbuf =>
    if offset < buf.length then (readName buf offset rspbuf).bind fun r => skipQueries buf n (r.1 + 4) r.2
    else some (offset, rspbuf)

/-! ## Data -/

def zeros : Mem := List.replicate rspLen 0

/-- `memcpy(&rspbuf[len], &buf[offset], n)` -/
def memcpy (rspbuf : Mem) (len : ℕ) (buf : Mem) (offset n : ℕ) : Option Mem :=
  if offset + n ≤ buf.length then storeAll rspbuf len ((buf.drop offset).take n) else none

/-- The separator in front of a text that is not the first. -/
def putSeparator (rspbuf : Mem) (len totalTxtLen : ℕ) : Option (ℕ × Mem) :=
  if totalTxtLen > 0 then (store rspbuf len (ch ';')).map fun rspbuf => (len + 1, rspbuf) else some (len, rspbuf)

/-- The texts of a TXT: how many characters there are, and the work buffer. -/
def txtLoop (buf : Mem) (dataLen : ℕ) : ℕ → (offset len totalTxtLen : ℕ) → Mem → Option (ℕ × Mem)
  | 0, _, _, _, _ => none
  | n + 1, offset, len, totalTxtLen, rspbuf =>
    if offset < buf.length ∧ dataLen > totalTxtLen then
      buf[offset]?.bind fun txtLen =>
        if offset + txtLen.toNat > buf.length then some (len, rspbuf)
        else
          (putSeparator rspbuf len totalTxtLen).bind fun r =>
            if r.1 + txtLen.toNat ≥ rspLen - 1 then some r
            else if offset + 1 + txtLen.toNat ≥ buf.length then some r
            else
              (memcpy r.2 r.1 buf (offset + 1) txtLen.toNat).bind fun rspbuf =>
                txtLoop buf dataLen n (offset + 1 + txtLen.toNat) (r.1 + txtLen.toNat)
                  (totalTxtLen + (txtLen.toNat + 1)) rspbuf
    else some (len, rspbuf)

def typePtr : UInt8 := 12
def typeTxt : UInt8 := 16

/-- The data of an answer in the work buffer. -/
def readData (buf : Mem) (recordType : UInt8) (dataLen offset : ℕ) : Option Mem :=
  if recordType = typePtr then
    (walk buf rspLen ⟨offset + 1, 0, false, zeros⟩).bind fun w =>
      store w.rspbuf (if w.idx ≥ rspLen then rspLen - 1 else w.idx) 0
  else (txtLoop buf dataLen (buf.length + 1) offset 0 0 zeros).bind fun r => store r.2 r.1 0

/-! ## Answers -/

def snprintf (out : Mem) (l size : ℕ) (s : List UInt8) : Option Mem :=
  if size = 0 then some out else storeAll out l (s.take (size - 1) ++ [0])

/-- `l += snprintf(&out[l], out_len - l, "%s%s", (l > 0) ? ";" : "", rspbuf)`, with `l` in front. -/
def print (out : Mem) (l : ℕ) (rspbuf : Mem) : Option (ℕ × Mem) :=
  (cstr rspbuf 0).bind fun s =>
    let s := (if l > 0 then [ch ';'] else []) ++ s
    (snprintf out l ((out.length + 2 ^ 32 - l) % 2 ^ 32) s).map fun out => (l + s.length, out)

def answers (buf : Mem) : (numAnswers : ℕ) → (offset : ℕ) → Mem → Option Mem
  | 0, _, out => some out
  | n + 1, offset, out =>
    if offset < buf.length then
      (readName buf offset zeros).bind fun r =>
        if r.1 + 9 + 2 ≥ buf.length then some out
        else
          buf[r.1 + 2]?.bind fun recordType =>
            if recordType ≠ typeTxt ∧ recordType ≠ typePtr then some out
            else
              (print out 0 r.2).bind fun p =>
                (ntohs buf (r.1 + 9)).bind fun dataLen =>
                  let origOffset := r.1 + 9 + 2
                  if dataLen > 0 then
                    (readData buf recordType dataLen origOffset).bind fun rspbuf =>
                      (print p.2 p.1 rspbuf).bind fun p => answers buf n (origOffset + dataLen) p.2
                  else answers buf n origOffset p.2
    else some out

def dissectMDNS (buf : Datagram) (rspbuf out : Mem) : Option Mem :=
  (store out 0 0).bind fun out =>
    if buf.val.length < headerLen then some out
    else
      (ntohs buf.val 4).bind fun numQueries =>
        (ntohs buf.val 6).bind fun numAnswers =>
          if numAnswers = 0 then some out
          else (skipQueries buf.val numQueries 13 rspbuf).bind fun r => answers buf.val numAnswers r.1 out

/-- The text for the table, unless it is empty. The buffer and the stack are as they were left. -/
def queueMDNSResponse (mdnsreply : Datagram) (rspbuf rspbuf' outbuf : Mem) : Option (Option (List UInt8)) :=
  (dissectMDNS mdnsreply rspbuf outbuf).bind fun outbuf =>
    (dissectMDNS mdnsreply rspbuf' outbuf).bind fun outbuf =>
      (cstr outbuf 0).map fun s => if s = [] then none else some s

/-! ## Within the packet and the buffers -/

variable {buf rspbuf out : Mem} {n offset idx : ℕ}

/-- What is in front of a place stays there. -/
def Keeps (idx : ℕ) (m m' : Mem) : Prop := m'.length = rspLen ∧ m'.take idx = m.take idx

theorem Keeps.refl (h : rspbuf.length = rspLen) : Keeps idx rspbuf rspbuf := ⟨h, rfl⟩

theorem Keeps.trans {m m' m'' : Mem} {idx' : ℕ} (h : Keeps idx m m') (h' : Keeps idx' m' m'') (hle : idx ≤ idx') :
    Keeps idx m m'' := by
  refine ⟨h'.1, ?_⟩
  rw [← Nat.min_eq_left hle, ← List.take_take, h'.2, List.take_take, Nat.min_eq_left hle]
  exact h.2

theorem store_keeps (hidx : idx < rspLen) (h : rspbuf.length = rspLen) (c : UInt8) :
    Reads (store rspbuf idx c) (Keeps idx rspbuf) := by
  rw [store_some (h ▸ hidx)]
  exact reads_some ⟨List.length_set.trans h, List.take_set_of_le (Nat.le_refl idx)⟩

/-- Rounds that are left, for the places that may still be gone to. -/
def Rounds (n newOffset idx : ℕ) : Prop := 256 * (rspLen - 1 - idx) + (255 - newOffset) < n

theorem Rounds.copy {newOffset : ℕ} (h : Rounds (n + 1) newOffset idx) (hidx : idx < rspLen - 1) :
    Rounds n (newOffset + 1) (idx + 1) := by
  unfold Rounds at *
  omega

/-- A jump goes on to a later place below 256. -/
theorem Rounds.jump {newOffset t : ℕ} (h : Rounds (n + 1) newOffset idx) (ht : t < 256) (hlt : newOffset < t) :
    Rounds n t idx := by
  unfold Rounds at *
  omega

theorem follow_ok {newOffset : ℕ} (hn : Rounds n newOffset idx) (hidx : idx ≤ rspLen - 1) (h : rspbuf.length = rspLen) :
    Reads (follow buf n newOffset idx rspbuf) fun r => idx ≤ r.1 ∧ r.1 ≤ rspLen - 1 ∧ Keeps idx rspbuf r.2 := by
  have stay : idx ≤ idx ∧ idx ≤ rspLen - 1 ∧ Keeps idx rspbuf rspbuf := ⟨Nat.le_refl idx, hidx, .refl h⟩
  induction n generalizing newOffset idx rspbuf with
  | zero => exact absurd hn (Nat.not_lt_zero _)
  | succ n ih =>
    have copy : ∀ c, idx < rspLen - 1 →
        Reads ((store rspbuf idx c).bind fun rspbuf => follow buf n (newOffset + 1) (idx + 1) rspbuf) fun r =>
          idx ≤ r.1 ∧ r.1 ≤ rspLen - 1 ∧ Keeps idx rspbuf r.2 := by
      intro c hlt
      refine (store_keeps (by omega) h c).bind fun m hm => ?_
      refine (ih (hn.copy hlt) (by omega) hm.1 ⟨Nat.le_refl _, by omega, .refl hm.1⟩).mono fun r hr => ?_
      exact ⟨by omega, hr.2.1, hm.trans hr.2.2 (Nat.le_succ idx)⟩
    unfold follow
    split
    · rename_i hin
      rw [List.getElem?_eq_getElem hin.2, Option.bind_some]
      split
      · exact reads_some stay
      · split
        · exact copy _ hin.1
        · split
          · split
            · exact reads_some stay
            · rename_i hlast
              have hnext : newOffset + 1 < buf.length := by omega
              rw [List.getElem?_eq_getElem hnext, Option.bind_some]
              split
              · exact reads_some stay
              · rename_i hlater
                exact ih (hn.jump buf[newOffset + 1].toNat_lt (Nat.lt_of_not_le hlater)) hidx h stay
          · exact copy _ hin.1
    · exact reads_some stay

theorem rounds_start (newOffset idx : ℕ) : Rounds followRounds newOffset idx := by
  have hrsp : rspLen = 512 := rfl
  have hrounds : followRounds = 131072 := rfl
  rw [Rounds, hrsp, hrounds]
  omega

theorem pointerAt_ok (buf : Mem) (offset : ℕ) : Reads (pointerAt buf offset) fun _ => True := by
  unfold pointerAt
  split
  · rename_i h
    rw [List.getElem?_eq_getElem h]
    exact reads_some trivial
  · exact reads_some trivial

theorem walk_ok {w : Walk} (hn : 0 < n ∧ rspLen ≤ w.idx + n) (hidx : w.idx ≤ rspLen) (h : w.rspbuf.length = rspLen) :
    Reads (walk buf n w) fun w' => w.idx ≤ w'.idx ∧ w'.idx ≤ rspLen ∧ Keeps w.idx w.rspbuf w'.rspbuf := by
  induction n generalizing w with
  | zero => exact absurd hn.1 (Nat.lt_irrefl 0)
  | succ n ih =>
    -- What is copied from here on, when the name goes on at `idx`.
    have next : ∀ offset idx p rspbuf, w.idx < rspLen - 1 → w.idx < idx → idx ≤ rspLen → Keeps w.idx w.rspbuf rspbuf →
        Reads (walk buf n ⟨offset, idx, p, rspbuf⟩) fun w' =>
          w.idx ≤ w'.idx ∧ w'.idx ≤ rspLen ∧ Keeps w.idx w.rspbuf w'.rspbuf := by
      intro offset idx p rspbuf hlt hidx' hle hkeeps
      refine (ih (w := ⟨offset, idx, p, rspbuf⟩) (by dsimp only; omega) hle hkeeps.1).mono fun w' hw' => ?_
      exact ⟨by have := hw'.1; dsimp only at this; omega, hw'.2.1, hkeeps.trans hw'.2.2 (Nat.le_of_lt hidx')⟩
    unfold walk
    split
    · rename_i hin
      have copy : ∀ c, Reads ((store w.rspbuf w.idx c).bind fun rspbuf =>
          walk buf n ⟨w.offset + 1, w.idx + 1, false, rspbuf⟩) fun w' =>
            w.idx ≤ w'.idx ∧ w'.idx ≤ rspLen ∧ Keeps w.idx w.rspbuf w'.rspbuf := fun c =>
        (store_keeps (by omega) h c).bind fun m hm => next _ _ _ _ hin.2 (Nat.lt_succ_self _) (by omega) hm
      rw [List.getElem?_eq_getElem hin.1, Option.bind_some]
      split
      · exact reads_some ⟨Nat.le_refl _, hidx, .refl h⟩
      · split
        · exact copy _
        · split
          · refine (pointerAt_ok buf w.offset).bind fun newOffset _ => ?_
            refine (follow_ok (rounds_start newOffset w.idx) (by omega) h).bind fun r hr => ?_
            exact next _ _ _ _ hin.2 (by omega) (by omega) hr.2.2
          · exact copy _
    · exact reads_some ⟨Nat.le_refl _, hidx, .refl h⟩

/-- A string in the work buffer. -/
def Text (rspbuf : Mem) : Prop := rspbuf.length = rspLen ∧ 0 ∈ rspbuf

theorem store_text {idx : ℕ} (h : rspbuf.length = rspLen) (hidx : idx < rspLen) : Reads (store rspbuf idx 0) Text :=
  (store_reads (h ▸ hidx) 0).mono fun _ hm => ⟨hm.1.trans h, hm.2⟩

theorem walk_start_ok (offset : ℕ) (h : rspbuf.length = rspLen) :
    Reads (walk buf rspLen ⟨offset, 0, false, rspbuf⟩) fun w => w.idx ≤ rspLen ∧ w.rspbuf.length = rspLen := by
  have hstart : 0 < rspLen ∧ rspLen ≤ 0 + rspLen := by decide
  exact (walk_ok hstart (Nat.zero_le _) h).mono fun w hw => ⟨hw.2.1, hw.2.2.1⟩

theorem readName_ok (offset : ℕ) (h : rspbuf.length = rspLen) :
    Reads (readName buf offset rspbuf) fun r => Text r.2 := by
  refine (walk_start_ok offset h).bind fun w hw => ?_
  have hlen : rspLen = 512 := rfl
  refine (store_text hw.2 ?_).map fun _ hm => hm
  split <;> omega

theorem skipQueries_ok {numQueries : ℕ} (h : rspbuf.length = rspLen) :
    Reads (skipQueries buf numQueries offset rspbuf) fun _ => True := by
  induction numQueries generalizing offset rspbuf with
  | zero => exact reads_some trivial
  | succ n ih =>
    unfold skipQueries
    split
    · exact (readName_ok offset h).bind fun r hr => ih hr.1
    · exact reads_some trivial

theorem length_zeros : zeros.length = rspLen := List.length_replicate

theorem putSeparator_ok {len total : ℕ} (hlen : len < rspLen - 1) (h : rspbuf.length = rspLen) :
    Reads (putSeparator rspbuf len total) fun r => r.1 ≤ len + 1 ∧ r.2.length = rspLen := by
  unfold putSeparator
  split
  · exact (store_reads (by omega) _).map fun m hm => ⟨Nat.le_refl _, hm.1.trans h⟩
  · exact reads_some ⟨Nat.le_succ len, h⟩

theorem memcpy_ok {len k : ℕ} (hin : offset + k ≤ buf.length) (hlen : len + k ≤ rspLen) (h : rspbuf.length = rspLen) :
    Reads (memcpy rspbuf len buf offset k) fun m => m.length = rspLen := by
  have htake : ((buf.drop offset).take k).length = k := by
    rw [List.length_take, List.length_drop]
    omega
  rw [memcpy, if_pos hin, storeAll_some (by rw [htake]; omega)]
  refine reads_some ?_
  rw [List.length_append, List.length_append, List.length_take, List.length_drop, htake]
  omega

theorem txtLoop_ok {dataLen len total : ℕ} (hn : 0 < n ∧ buf.length < n + offset) (hlen : len < rspLen - 1)
    (h : rspbuf.length = rspLen) :
    Reads (txtLoop buf dataLen n offset len total rspbuf) fun r => r.1 < rspLen ∧ r.2.length = rspLen := by
  induction n generalizing offset len total rspbuf with
  | zero => exact absurd hn.1 (Nat.lt_irrefl 0)
  | succ n ih =>
    unfold txtLoop
    split
    · rename_i hin
      rw [List.getElem?_eq_getElem hin.1, Option.bind_some]
      split
      · exact reads_some ⟨by omega, h⟩
      · refine (putSeparator_ok hlen h).bind fun r hr => ?_
        split
        · exact reads_some ⟨by omega, hr.2⟩
        · split
          · exact reads_some ⟨by omega, hr.2⟩
          · exact (memcpy_ok (by omega) (by omega) hr.2).bind fun m hm => ih (by omega) (by omega) hm
    · exact reads_some ⟨by omega, h⟩

theorem readData_ok (recordType : UInt8) (dataLen offset : ℕ) : Reads (readData buf recordType dataLen offset) Text := by
  have hlen : rspLen = 512 := rfl
  unfold readData
  split
  · refine (walk_start_ok (offset + 1) length_zeros).bind fun w hw => store_text hw.2 ?_
    split <;> omega
  · have hn : 0 < buf.length + 1 ∧ buf.length < buf.length + 1 + offset := by omega
    exact (txtLoop_ok hn (by decide) length_zeros).bind fun r hr => store_text hr.2 hr.1

/-! ### The output -/

/-- The size of the caller's buffer. -/
def outLen : ℕ := 1024

/-- A string in the buffer of the caller. -/
def Output (out : Mem) : Prop := out.length = outLen ∧ 0 ∈ out

theorem snprintf_ok {l : ℕ} (hl : l < out.length) (s : List UInt8) :
    Reads (snprintf out l (out.length - l) s) fun out' => out'.length = out.length ∧ 0 ∈ out' := by
  have hlen : (s.take (out.length - l - 1) ++ [0]).length ≤ out.length - l := by
    rw [List.length_append, List.length_take, List.length_singleton]
    omega
  rw [snprintf, if_neg (by omega), storeAll_some (by omega)]
  refine reads_some ⟨?_, by simp⟩
  simp only [List.length_append, List.length_take, List.length_drop, List.length_singleton] at hlen ⊢
  omega

theorem Text.read (h : Text rspbuf) : Reads (cstr rspbuf 0) fun s => s.length < rspLen ∧ 0 ∉ s := by
  have hnul : Terminated rspbuf 0 := terminated_iff.mpr h.2
  refine (cstr_some hnul).mono fun s hs => ⟨?_, hs.1⟩
  have hlt := (List.getElem?_eq_some_iff.mp hs.2).1
  rw [h.1] at hlt
  omega

theorem print_ok {l : ℕ} (hl : l < rspLen) (hout : Output out) (h : Text rspbuf) :
    Reads (print out l rspbuf) fun p => (l = 0 → p.1 < rspLen) ∧ Output p.2 := by
  have hlen : out.length = 1024 := hout.1
  have hrsp : rspLen = 512 := rfl
  have hsize : (out.length + 2 ^ 32 - l) % 2 ^ 32 = out.length - l := by omega
  refine h.read.bind fun s hs => ?_
  rw [hsize]
  refine (snprintf_ok (by omega) _).map fun out' hout' => ⟨fun h0 => ?_, hout'.1.trans hout.1, hout'.2⟩
  rw [h0, if_neg (Nat.lt_irrefl 0), List.nil_append, Nat.zero_add]
  exact hs.1

theorem answers_ok {numAnswers : ℕ} (hout : Output out) : Reads (answers buf numAnswers offset out) Output := by
  induction numAnswers generalizing offset out with
  | zero => exact reads_some hout
  | succ n ih =>
    unfold answers
    split
    · refine (readName_ok offset length_zeros).bind fun r hr => ?_
      split
      · exact reads_some hout
      · rename_i hin
        have htype : r.1 + 2 < buf.length := by omega
        rw [List.getElem?_eq_getElem htype, Option.bind_some]
        split
        · exact reads_some hout
        · refine (print_ok (by decide) hout hr).bind fun p hp => ?_
          refine (ntohs_some (by omega)).bind fun dataLen _ => ?_
          dsimp only
          split
          · refine (readData_ok _ dataLen _).bind fun m hm => ?_
            exact (print_ok (hp.1 rfl) hp.2 hm).bind fun p' hp' => ih hp'.2
          · exact ih hp.2
    · exact reads_some hout

/-- For every packet all loops end, within the packet, the work buffer and the buffer of the caller. -/
theorem dissectMDNS_ok (buf : Datagram) (hrsp : rspbuf.length = rspLen) (hout : out.length = outLen) :
    Reads (dissectMDNS buf rspbuf out) Output := by
  have hpos : 0 < out.length := hout ▸ (by decide : 0 < outLen)
  refine (store_reads hpos 0).bind fun out' hout' => ?_
  have houtput : Output out' := ⟨hout'.1.trans hout, hout'.2⟩
  have hheader : headerLen = 12 := rfl
  split
  · exact reads_some houtput
  · refine (ntohs_some (by omega)).bind fun numQueries _ => (ntohs_some (by omega)).bind fun numAnswers _ => ?_
    split
    · exact reads_some houtput
    · exact (skipQueries_ok hrsp).bind fun r _ => answers_ok houtput

/-- What is put into the table is a string of the buffer, not an empty one. -/
theorem queueMDNSResponse_ok (mdnsreply : Datagram) {rspbuf' outbuf : Mem} (hrsp : rspbuf.length = rspLen)
    (hrsp' : rspbuf'.length = rspLen) (hout : outbuf.length = outLen) :
    Reads (queueMDNSResponse mdnsreply rspbuf rspbuf' outbuf) fun r => ∀ s, r = some s → s ≠ [] ∧ 0 ∉ s := by
  refine (dissectMDNS_ok mdnsreply hrsp hout).bind fun out hout' => ?_
  refine (dissectMDNS_ok mdnsreply hrsp' hout'.1).bind fun out' hnul => ?_
  refine (cstr_some (terminated_iff.mpr (show 0 ∈ out'.drop 0 from hnul.2))).map fun s hs t ht => ?_
  split at ht
  · cases ht
  · rename_i hne
    cases ht
    exact ⟨hne, hs.1⟩

end Ntopng.Protocols.MdnsDissect
