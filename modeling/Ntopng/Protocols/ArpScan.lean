/-
  Ntopng.Protocols.ArpScan — the addresses an ARP scan of a network asks for
  (src/NetworkDiscovery.cpp: `arp_scan_hosts`, `sendArpNetwork`).

  A network is the address and the prefix length of a node of the interface's tree. Sending a packet succeeds;
  the replies and the mDNS queries do not change what is asked for and are left out. A shift by the width of
  the word or more is undefined: `none`.

  A host address is one of the network that is neither its first (the network) nor its last (the broadcast).

  Proved (`arp_law`): exactly for which networks and senders both runs ask for host addresses only, never for
  the sender's, for all of them from /23 on and for at most 1024 of a larger network.
-/

import Ntopng.Lib.Bytes

namespace Ntopng.Protocols.ArpScan

open Ntopng.Lib.Bytes

/-- `v << n` of an `unsigned int`. -/
def shl (v : UInt32) (n : ℤ) : Option UInt32 := if 0 ≤ n ∧ n < 32 then some (v <<< UInt32.ofNat n.toNat) else none

/-- One run: the addresses (`arp_tpa`) that are asked for. -/
def scan (spa last host : UInt32) : List UInt32 :=
  if _h : host < last then
    if ntohl host = spa then scan spa last (host + 1) else ntohl host :: scan spa last (host + 1)
  else []
termination_by last.toNat - host.toNat
decreasing_by
  all_goals
    have hlt := UInt32.lt_iff_toNat_lt.mp _h
    have hlast := last.toNat_lt
    rw [UInt32.toNat_add, show (1 : UInt32).toNat = 1 from rfl]
    omega

def maxNumIps : UInt32 := 1024

def sendArpNetwork (netp maskp senderIp : UInt32) : List (List UInt32) :=
  let firstIp := netp &&& maskp
  let lastIp := netp + ~~~maskp
  let firstIp := firstIp + 1
  let lastIp := lastIp - 1
  let lastIp := if lastIp - firstIp > maxNumIps then firstIp + maxNumIps else lastIp
  (List.range 2).map fun _ => scan senderIp lastIp firstIp

/-- The variable `bitlen`, which is at least 23, is not used. -/
def arpScanHosts (sAddr : UInt32) (prefixBitlen : UInt16) (senderIp : UInt32) : Option (List (List UInt32)) :=
  let netp := ntohl sAddr
  (shl 0xFFFFFFFF (32 - prefixBitlen.toNat)).map fun maskp => sendArpNetwork netp maskp senderIp

/-! ## Networks -/

/-- How many addresses a network has. -/
def size (bitlen : ℕ) : ℕ := 2 ^ (32 - bitlen)

/-- A host address of the network of an address. -/
def IsHost (addr : UInt32) (bitlen : ℕ) (a : UInt32) : Prop :=
  a.toNat / size bitlen = addr.toNat / size bitlen ∧ a.toNat % size bitlen ≠ 0 ∧ a.toNat % size bitlen ≠ size bitlen - 1

/-- What a run is to ask for. -/
structure Meets (addr : UInt32) (bitlen : ℕ) (sender : UInt32) (run : List UInt32) : Prop where
  inside : ∀ t ∈ run, t ≠ sender ∧ IsHost addr bitlen (ntohl t)
  all : 23 ≤ bitlen → ∀ a, IsHost addr bitlen a → ntohl a ≠ sender → ntohl a ∈ run
  few : bitlen < 23 → run.length ≤ 1024

/-- Every run is as it should be. -/
def ScansHosts (sAddr : UInt32) (bitlen : UInt16) (sender : UInt32) : Prop :=
  ∃ runs, arpScanHosts sAddr bitlen sender = some runs ∧ ∀ run ∈ runs, Meets (ntohl sAddr) bitlen.toNat sender run

/-- The networks, by the first address `base` of the network, the number `host` of the address in it and the sender,
    all in host order. -/
def Good (bitlen base host sender : ℕ) : Prop :=
  1 ≤ bitlen ∧ bitlen ≤ 21 ∨
  bitlen = 22 ∧ (host ≤ 1 ∨ base + 1024 = 2 ^ 32 ∨ host = 2 ∧ sender = base + 1023) ∨
  23 ≤ bitlen ∧ bitlen ≤ 30 ∧ (host = 0 ∧ sender = base + size bitlen - 2 ∨ host = 1 ∨
    host = 2 ∧ sender = base + size bitlen - 1 ∧ base + size bitlen < 2 ^ 32) ∨
  bitlen = 31 ∧ (host = 1 ∨ 2 ^ 32 ≤ base + 1025) ∨
  bitlen = 32 ∧ 2 ^ 32 ≤ base + 1025 ∧ base + 1 < 2 ^ 32

/-! ## One run -/

variable {spa last host t : UInt32}

theorem succ_toNat (h : host < last) : (host + 1).toNat = host.toNat + 1 := by
  have hlt := UInt32.lt_iff_toNat_lt.mp h
  have hlast := last.toNat_lt
  rw [UInt32.toNat_add, show (1 : UInt32).toNat = 1 from rfl]
  omega

theorem mem_scan : t ∈ scan spa last host ↔ t ≠ spa ∧ host.toNat ≤ (ntohl t).toNat ∧ (ntohl t).toNat < last.toNat := by
  induction host using scan.induct spa last with
  | case1 host hlt hself ih =>
    have hless := UInt32.lt_iff_toNat_lt.mp hlt
    rw [scan, dif_pos hlt, if_pos hself, ih, succ_toNat hlt]
    refine and_congr_right fun hne => and_congr_left fun _ => ?_
    have hother : (ntohl t).toNat ≠ host.toNat := by
      rw [Ne, UInt32.toNat_inj]
      rintro rfl
      exact hne (by rw [← hself, ntohl_ntohl])
    omega
  | case2 host hlt hself ih =>
    have hless := UInt32.lt_iff_toNat_lt.mp hlt
    rw [scan, dif_pos hlt, if_neg hself, List.mem_cons, ih, succ_toNat hlt]
    by_cases ht : t = ntohl host
    · rw [ht, ntohl_ntohl]
      exact iff_of_true (.inl rfl) ⟨hself, le_refl _, hless⟩
    · have hother : (ntohl t).toNat ≠ host.toNat := by
        rw [Ne, UInt32.toNat_inj]
        rintro rfl
        exact ht (ntohl_ntohl t).symm
      rw [or_iff_right ht]
      refine and_congr_right fun _ => and_congr_left fun _ => ?_
      omega
  | case3 host hlt =>
    rw [scan, dif_neg hlt]
    rw [UInt32.lt_iff_toNat_lt] at hlt
    refine iff_of_false List.not_mem_nil ?_
    omega

theorem length_scan (spa last host : UInt32) : (scan spa last host).length ≤ last.toNat - host.toNat := by
  induction host using scan.induct spa last with
  | case1 host hlt hself ih =>
    have hsucc := succ_toNat hlt
    rw [scan, dif_pos hlt, if_pos hself]
    omega
  | case2 host hlt hself ih =>
    have hless := UInt32.lt_iff_toNat_lt.mp hlt
    have hsucc := succ_toNat hlt
    rw [scan, dif_pos hlt, if_neg hself, List.length_cons]
    omega
  | case3 host hlt =>
    rw [scan, dif_neg hlt]
    exact Nat.zero_le _

/-! ## The range -/

def maskOf (k : ℕ) : UInt32 := 0xFFFFFFFF <<< UInt32.ofNat k

theorem maskOf_toBitVec : ∀ k < 32, (maskOf k).toBitVec = BitVec.allOnes 32 <<< k := by decide

theorem not_maskOf : ∀ k < 32, (~~~maskOf k).toNat = 2 ^ k - 1 := by decide

/-- The first address of the network. -/
theorem and_maskOf (v : UInt32) {k : ℕ} (hk : k < 32) : (v &&& maskOf k).toNat = v.toNat / 2 ^ k * 2 ^ k := by
  have hbits : (v &&& maskOf k).toBitVec = v.toBitVec >>> k <<< k := by
    rw [UInt32.toBitVec_and, maskOf_toBitVec k hk, BitVec.shiftLeft_ushiftRight]
  have hnat := congrArg BitVec.toNat hbits
  rw [BitVec.toNat_shiftLeft, BitVec.toNat_ushiftRight, Nat.shiftLeft_eq, Nat.shiftRight_eq_div_pow, UInt32.toNat_toBitVec,
    UInt32.toNat_toBitVec, Nat.mod_eq_of_lt ((Nat.div_mul_le_self ..).trans_lt v.toNat_lt)] at hnat
  exact hnat

/-- The end of the range, as a number. -/
def lastNat (base h s : ℕ) : ℕ :=
  if (h + s + (2 ^ 32 - 3)) % 2 ^ 32 > 1024 then (base + 1025) % 2 ^ 32 else (base + h + s + (2 ^ 32 - 2)) % 2 ^ 32

variable {netp maskp sender : UInt32} {base h s bitlen : ℕ}

theorem range_toNat (hbase : (netp &&& maskp).toNat = base) (hnot : (~~~maskp).toNat = s - 1) (hs : 0 < s)
    (hnetp : netp.toNat = base + h) (sender : UInt32) : ∃ first last : UInt32,
      sendArpNetwork netp maskp sender = [scan sender last first, scan sender last first] ∧
        first.toNat = (base + 1) % 2 ^ 32 ∧ last.toNat = lastNat base h s := by
  have hone : (1 : UInt32).toNat = 1 := rfl
  have hmax : maxNumIps.toNat = 1024 := rfl
  have hlt := netp.toNat_lt
  have hn := (~~~maskp).toNat_lt
  have hb := (netp &&& maskp).toNat_lt
  have hfirst : ((netp &&& maskp) + 1).toNat = (base + 1) % 2 ^ 32 := by rw [UInt32.toNat_add, hbase, hone]
  have hlast : (netp + ~~~maskp - 1).toNat = (base + h + s + (2 ^ 32 - 2)) % 2 ^ 32 := by
    rw [UInt32.toNat_sub, UInt32.toNat_add, hnot, hone, hnetp]
    omega
  refine ⟨(netp &&& maskp) + 1, _, rfl, hfirst, ?_⟩
  have hfar : netp + ~~~maskp - 1 - ((netp &&& maskp) + 1) > maxNumIps ↔ (h + s + (2 ^ 32 - 3)) % 2 ^ 32 > 1024 := by
    rw [gt_iff_lt, UInt32.lt_iff_toNat_lt, hmax, UInt32.toNat_sub, hfirst, hlast]
    omega
  rw [lastNat]
  split
  next hgt =>
    rw [if_pos (hfar.mp hgt), UInt32.toNat_add, hfirst, hmax]
    omega
  next hgt => rw [if_neg fun h => hgt (hfar.mpr h), hlast]

/-- A host address is neither the first nor the last of its network. -/
theorem isHost_iff {addr a : UInt32} (hbase : addr.toNat / size bitlen * size bitlen = base) :
    IsHost addr bitlen a ↔ base < a.toNat ∧ a.toNat + 1 < base + size bitlen := by
  have hsize : 0 < size bitlen := Nat.two_pow_pos _
  have hmod := Nat.mod_lt a.toNat hsize
  have hdiv := Nat.div_add_mod' a.toNat (size bitlen)
  rw [IsHost, ← hbase]
  constructor
  · rintro ⟨heq, hfirst, hlast⟩
    rw [heq] at hdiv
    omega
  · rintro ⟨hlow, hhigh⟩
    have heq : a.toNat / size bitlen = addr.toNat / size bitlen := by
      refine Nat.div_eq_of_lt_le hlow.le ?_
      rw [Nat.succ_mul]
      omega
    rw [heq] at hdiv
    exact ⟨heq, by omega, by omega⟩

/-- A run, as the numbers from `f` to `l`. -/
def Asks (base size bitlen f l sender : ℕ) : Prop :=
  (∀ a, f ≤ a → a < l → a ≠ sender → base < a ∧ a + 1 < base + size) ∧
    (23 ≤ bitlen → ∀ a, base < a → a + 1 < base + size → a ≠ sender → f ≤ a ∧ a < l)

theorem meets_iff (sender : UInt32) {addr first last : UInt32} (hbase : addr.toNat / size bitlen * size bitlen = base)
    (hfit : base + size bitlen ≤ 2 ^ 32) (hfew : last.toNat ≤ first.toNat + 1024) :
    Meets addr bitlen sender (scan sender last first) ↔
      Asks base (size bitlen) bitlen first.toNat last.toNat (ntohl sender).toNat := by
  have hother : ∀ a : UInt32, ntohl a ≠ sender ↔ a.toNat ≠ (ntohl sender).toNat := by
    intro a
    rw [Ne, Ne, UInt32.toNat_inj, ← ntohl_inj (v := a), ntohl_ntohl]
  constructor
  · intro hmeets
    constructor
    · intro a hf hl hne
      have hlt : a < 2 ^ 32 := hl.trans last.toNat_lt
      have hnat : (UInt32.ofNat a).toNat = a := UInt32.toNat_ofNat_of_lt' hlt
      have hin := (hmeets.inside (ntohl (UInt32.ofNat a)) (mem_scan.mpr ⟨?_, ?_⟩)).2
      · rw [ntohl_ntohl, isHost_iff hbase, hnat] at hin
        exact hin
      · rw [hother, hnat]
        exact hne
      · rw [ntohl_ntohl, hnat]
        exact ⟨hf, hl⟩
    · intro h23 a hlow hhigh hne
      have hnat : (UInt32.ofNat a).toNat = a := UInt32.toNat_ofNat_of_lt' (show a < 2 ^ 32 by omega)
      have hin := hmeets.all h23 (UInt32.ofNat a) ?_ ?_
      · rw [mem_scan, ntohl_ntohl, hnat] at hin
        exact hin.2
      · rw [isHost_iff hbase, hnat]
        exact ⟨hlow, hhigh⟩
      · rw [hother, hnat]
        exact hne
  · intro hasks
    refine ⟨?_, ?_, ?_⟩
    · intro t ht
      obtain ⟨hne, hf, hl⟩ := mem_scan.mp ht
      refine ⟨hne, (isHost_iff hbase).mpr (hasks.1 _ hf hl ?_)⟩
      rwa [← hother, ntohl_ntohl]
    · intro h23 a ha hne
      obtain ⟨hlow, hhigh⟩ := (isHost_iff hbase).mp ha
      rw [mem_scan, ntohl_ntohl]
      exact ⟨hne, hasks.2 h23 _ hlow hhigh ((hother a).mp hne)⟩
    · intro _
      have hlen := length_scan sender last first
      omega

/-! ## The result -/

theorem lastNat_le (base h s : ℕ) : lastNat base h s ≤ (base + 1) % 2 ^ 32 + 1024 := by
  rw [lastNat]
  split <;> omega

section

variable {sender s : ℕ}

theorem asks_large (hs : 2048 ≤ s) (hs' : s ≤ 2 ^ 31) (hh : h < s) (hfit : base + s ≤ 2 ^ 32) (hb : bitlen < 23) :
    Asks base s bitlen ((base + 1) % 2 ^ 32) (lastNat base h s) sender := by
  have hlast : lastNat base h s = base + 1025 := by
    rw [lastNat, if_pos (by omega)]
    omega
  refine ⟨?_, fun h23 => absurd hb (by omega)⟩
  rw [hlast]
  intro a
  omega

theorem asks_22 (hh : h < 1024) (hfit : base + 1024 ≤ 2 ^ 32) (hdvd : 1024 ∣ base) :
    Asks base 1024 22 ((base + 1) % 2 ^ 32) (lastNat base h 1024) sender ↔ h ≤ 1 ∨ base + 1024 = 2 ^ 32 ∨ h = 2 ∧ sender = base + 1023 := by
  have hlast : 4 ≤ h ∧ lastNat base h 1024 = (base + 1025) % 2 ^ 32 ∨
      h < 4 ∧ lastNat base h 1024 = (base + h + 1022) % 2 ^ 32 := by
    rw [lastNat]
    split <;> omega
  constructor
  · rintro ⟨hin, -⟩
    have h1 := hin (base + 1023)
    have h2 := hin (base + 1024)
    omega
  · intro hgood
    refine ⟨fun a => ?_, fun h23 => absurd h23 (by decide)⟩
    omega

theorem asks_small (hs : 4 ≤ s) (hs' : s ≤ 512) (hh : h < s) (hfit : base + s ≤ 2 ^ 32) (hb : 23 ≤ bitlen) :
    Asks base s bitlen ((base + 1) % 2 ^ 32) (lastNat base h s) sender ↔
      h = 0 ∧ sender = base + s - 2 ∨ h = 1 ∨ h = 2 ∧ sender = base + s - 1 ∧ base + s < 2 ^ 32 := by
  have hlast : lastNat base h s = (base + h + s - 2) % 2 ^ 32 := by
    rw [lastNat, if_neg (by omega)]
    omega
  rw [Asks, hlast]
  constructor
  · rintro ⟨hin, hall⟩
    have h1 := hin (base + s - 1)
    have h2 := hin (base + s)
    have h3 := hall hb (base + s - 2)
    have h4 := hall hb (base + 1)
    have h5 := hall hb (base + 2)
    omega
  · intro hgood
    refine ⟨fun a => ?_, fun _ a => ?_⟩ <;> omega

theorem asks_31 (hh : h < 2) (hfit : base + 2 ≤ 2 ^ 32) (heven : 2 ∣ base) :
    Asks base 2 31 ((base + 1) % 2 ^ 32) (lastNat base h 2) sender ↔ h = 1 ∨ 2 ^ 32 ≤ base + 1025 := by
  have hlast : h = 0 ∧ lastNat base h 2 = (base + 1025) % 2 ^ 32 ∨ h = 1 ∧ lastNat base h 2 = base + 1 := by
    rw [lastNat]
    split <;> omega
  constructor
  · rintro ⟨hin, -⟩
    have h1 := hin (base + 1)
    have h2 := hin (base + 2)
    omega
  · intro hgood
    refine ⟨fun a => ?_, fun _ a => ?_⟩ <;> omega

theorem asks_32 (hh : h < 1) (hfit : base + 1 ≤ 2 ^ 32) : Asks base 1 32 ((base + 1) % 2 ^ 32) (lastNat base h 1) sender ↔
    2 ^ 32 ≤ base + 1025 ∧ base + 1 < 2 ^ 32 := by
  have hlast : lastNat base h 1 = (base + 1025) % 2 ^ 32 := by rw [lastNat, if_pos (by omega)]
  rw [Asks, hlast]
  constructor
  · rintro ⟨hin, -⟩
    have h1 := hin ((base + 1) % 2 ^ 32)
    have h2 := hin ((base + 2) % 2 ^ 32)
    omega
  · intro hgood
    refine ⟨fun a => ?_, fun _ a => ?_⟩ <;> omega

theorem asks_iff (h1 : 1 ≤ bitlen) (h32 : bitlen ≤ 32) (hh : h < size bitlen) (hdvd : size bitlen ∣ base)
    (hfit : base + size bitlen ≤ 2 ^ 32) :
    Asks base (size bitlen) bitlen ((base + 1) % 2 ^ 32) (lastNat base h (size bitlen)) sender ↔
      Good bitlen base h sender := by
  by_cases h21 : bitlen ≤ 21
  · have hlow : 2 ^ 11 ≤ size bitlen := Nat.pow_le_pow_right (by decide) (by omega)
    have hhigh : size bitlen ≤ 2 ^ 31 := Nat.pow_le_pow_right (by decide) (by omega)
    exact iff_of_true (asks_large hlow hhigh hh hfit (by omega)) (.inl ⟨h1, h21⟩)
  · by_cases h22 : bitlen = 22
    · subst h22
      rw [show size 22 = 1024 from rfl] at hh hfit hdvd ⊢
      rw [asks_22 hh hfit hdvd, Good]
      omega
    · by_cases h30 : bitlen ≤ 30
      · have hlow : 2 ^ 2 ≤ size bitlen := Nat.pow_le_pow_right (by decide) (by omega)
        have hhigh : size bitlen ≤ 2 ^ 9 := Nat.pow_le_pow_right (by decide) (by omega)
        rw [asks_small hlow hhigh hh hfit (by omega), Good]
        omega
      · by_cases h31 : bitlen = 31
        · subst h31
          rw [show size 31 = 2 from rfl] at hh hfit hdvd ⊢
          rw [asks_31 hh hfit hdvd, Good]
          omega
        · obtain rfl : bitlen = 32 := by omega
          rw [show size 32 = 1 from rfl] at hh hfit ⊢
          rw [asks_32 hh hfit, Good]
          omega

end

theorem arpScanHosts_zero (sAddr sender : UInt32) {bitlen : UInt16} (h : bitlen.toNat = 0) :
    arpScanHosts sAddr bitlen sender = none := by
  rw [arpScanHosts, h]
  rfl

theorem arpScanHosts_some (sAddr sender : UInt32) {bitlen : UInt16} (h1 : 1 ≤ bitlen.toNat) (h32 : bitlen.toNat ≤ 32) :
    arpScanHosts sAddr bitlen sender = some (sendArpNetwork (ntohl sAddr) (maskOf (32 - bitlen.toNat)) sender) := by
  have hshift : (32 - (bitlen.toNat : ℤ)).toNat = 32 - bitlen.toNat := by omega
  rw [arpScanHosts, shl, if_pos (by omega), hshift]
  rfl

theorem arp_law (sAddr sender : UInt32) (bitlen : UInt16) (h : bitlen.toNat ≤ 32) : ScansHosts sAddr bitlen sender ↔
    Good bitlen.toNat ((ntohl sAddr).toNat / size bitlen.toNat * size bitlen.toNat) ((ntohl sAddr).toNat % size bitlen.toNat)
      (ntohl sender).toNat := by
  by_cases hzero : bitlen.toNat = 0
  · refine iff_of_false ?_ ?_
    · rintro ⟨runs, hruns, -⟩
      rw [arpScanHosts_zero sAddr sender hzero] at hruns
      cases hruns
    · rw [Good]
      omega
  · have h1 : 1 ≤ bitlen.toNat := Nat.one_le_iff_ne_zero.mpr hzero
    have hk : 32 - bitlen.toNat < 32 := by omega
    have hsize : 0 < size bitlen.toNat := Nat.two_pow_pos _
    have hmod := Nat.mod_lt (ntohl sAddr).toNat hsize
    have hdiv := (Nat.div_add_mod' (ntohl sAddr).toNat (size bitlen.toNat)).symm
    have hfit : (ntohl sAddr).toNat / size bitlen.toNat * size bitlen.toNat + size bitlen.toNat ≤ 2 ^ 32 := by
      have hdvd : size bitlen.toNat ∣ 2 ^ 32 := Nat.pow_dvd_pow 2 (by omega)
      rw [← Nat.succ_mul, ← Nat.div_mul_cancel hdvd]
      refine Nat.mul_le_mul_right _ (Nat.succ_le_of_lt ?_)
      rw [Nat.div_lt_iff_lt_mul hsize, Nat.div_mul_cancel hdvd]
      exact (ntohl sAddr).toNat_lt
    obtain ⟨first, last, hruns, hfirst, hlast⟩ := range_toNat (and_maskOf (ntohl sAddr) hk) (not_maskOf _ hk) hsize hdiv sender
    have hfew : last.toNat ≤ first.toNat + 1024 := by
      rw [hfirst, hlast]
      exact lastNat_le ..
    have hmeets := meets_iff sender rfl hfit hfew
    rw [hfirst, hlast, show 2 ^ (32 - bitlen.toNat) = size bitlen.toNat from rfl,
      asks_iff h1 h hmod (Nat.dvd_mul_left ..) hfit] at hmeets
    rw [ScansHosts, arpScanHosts_some sAddr sender h1 h, hruns, ← hmeets]
    constructor
    · rintro ⟨runs, heq, hall⟩
      rw [← Option.some.inj heq] at hall
      exact hall _ (List.mem_cons_self ..)
    · intro hmeets
      refine ⟨_, rfl, fun run hrun => ?_⟩
      rw [List.mem_cons, List.mem_singleton, or_self] at hrun
      exact hrun ▸ hmeets

/-- 192.168.1.0/24, asked from 192.168.1.1. -/
theorem arp_law_24 : (24 : UInt16).toNat ≤ 32 ∧ (ScansHosts 0x0001A8C0 24 0x0101A8C0 ↔ Good 24 0xC0A80100 0 0xC0A80101) :=
  ⟨by decide, arp_law 0x0001A8C0 0x0101A8C0 24 (by decide)⟩

/-- 192.168.1.254 is not asked for, and a network of one address asks for 1024 others. -/
theorem last_host_missed : ¬ ScansHosts 0x0001A8C0 24 0x0101A8C0 ∧ ¬ ScansHosts 0x0001A8C0 32 0x0001A8C0 := by
  constructor
  · rintro ⟨runs, hruns, hall⟩
    rw [arpScanHosts_some _ _ (by decide) (by decide)] at hruns
    obtain rfl := Option.some.inj hruns
    have hrun := hall (scan 0x0101A8C0 0xC0A801FE 0xC0A80101) (List.mem_map.mpr ⟨0, by decide, rfl⟩)
    have hmem := hrun.all (by decide) 0xC0A801FE ⟨by decide, by decide, by decide⟩ (by decide)
    rw [mem_scan, ntohl_ntohl] at hmem
    exact absurd hmem.2.2 (lt_irrefl _)
  · rintro ⟨runs, hruns, hall⟩
    rw [arpScanHosts_some _ _ (by decide) (by decide)] at hruns
    obtain rfl := Option.some.inj hruns
    have hrun := hall (scan 0x0001A8C0 0xC0A80501 0xC0A80101) (List.mem_map.mpr ⟨0, by decide, rfl⟩)
    have hhost := (hrun.inside (ntohl 0xC0A80101) (mem_scan.mpr ⟨by decide, by decide, by decide⟩)).2
    exact absurd hhost.1 (by decide)

end Ntopng.Protocols.ArpScan
