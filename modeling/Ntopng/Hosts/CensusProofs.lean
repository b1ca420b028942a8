/-
  Ntopng.Hosts.CensusProofs — when the counters of the live hosts are right (see
  `Ntopng.Hosts.Census`).

  Every run keeps the pools: a host leaves the pool it was counted in. The other counters
  decide twice, when a host comes and when it goes, by what may have changed in between. A
  host is unicast as long as its MAC is not broadcast, so `setMac` can take it out of the
  counters without a decrement. A MAC counts the hosts whose address is in no local network,
  and not those that are remote: `findFlowHosts` makes local hosts of an interface address, of
  a local ASN or of a pool, which are counted as remote behind their MAC. And
  `toggleRxOnlyHost(true)` sets the flag without counting.

  Proved: in every state of a run the counters are right and none was to go below zero
  exactly if no step of the run does one of the three (`law_iff_sound`).
-/

import Ntopng.Hosts.Census

namespace Ntopng.Hosts.Census

open Ntopng.Lib.Run
open Ntopng.Lib.Tally

variable {M A : Type} [DecidableEq M] (env : Env M A)

/-! ## The law -/

structure Law (s : Iface M A) : Prop where
  hosts : ∀ c : Counter,
    s.books.numHosts c = s.hosts.countP fun h => h.isUnicastHost env && c.counts h.isLocalHost h.isRxOnly
  pools : ∀ p < env.maxNumPools,
    s.books.numActiveHostsInline p + s.books.numActiveHostsOffline p = s.hosts.countP fun h => h.hostPoolId == p
  macs : ∀ m, s.books.numRemoteHosts m = s.hosts.countP fun h => !h.isLocalHost && h.mac == some m
  errors : s.books.internalErrors = [] ∧ s.books.noRemoteHosts = 0

/-- What a step must not do. -/
def Sound (s : Iface M A) : Ev M A → Prop
  | .newHost ip vlanId mac => mac.isSome → isLocal env s.tree ip vlanId → ip.isLocalHost
  | .toggleRxOnlyHost i rxOnly => ∀ h, s.hosts[i]? = some h → rxOnly → h.isUnicastHost env → h.isRxOnly
  | .setMac i mac => ∀ h m, s.hosts[i]? = some h → mac = some m → h.mac ≠ some m →
      Host.isUnicastHost { h with mac := some m } env = h.isUnicastHost env ∧ (h.isLocalHost → h.ip.isLocalHost)
  | _ => True

/-! ## Three books -/

def hostKind (c : Counter) (h : Host M A) : Bool := h.isUnicastHost env && c.counts h.isLocalHost h.isRxOnly

def poolKind (p : Nat) (h : Host M A) : Bool := decide (p < env.maxNumPools) && h.hostPoolId == p

def macKind (m : M) (h : Host M A) : Bool := !h.isLocalHost && h.mac == some m

namespace Books

variable (b : Books M) (h : Host M A)

def hostPart : (Counter → ℕ) × List Counter := (b.numHosts, b.internalErrors)

def poolPart (p : ℕ) : ℤ := b.numActiveHostsInline p + b.numActiveHostsOffline p

def macPart : (M → ℕ) × ℕ := (b.numRemoteHosts, b.noRemoteHosts)

/-! ### What is left alone -/

section

omit [DecidableEq M]

@[simp] theorem poolPart_incNumHosts (rx : Bool) : (b.incNumHosts env h rx).poolPart = b.poolPart := by
  unfold incNumHosts; split <;> [rfl; split <;> rfl]

@[simp] theorem macPart_incNumHosts (rx : Bool) : (b.incNumHosts env h rx).macPart = b.macPart := by
  unfold incNumHosts; split <;> [rfl; split <;> rfl]

@[simp] theorem poolPart_decNumHosts (rx : Bool) : (b.decNumHosts env h rx).poolPart = b.poolPart := by
  unfold decNumHosts; split <;> [rfl; split <;> rfl]

@[simp] theorem macPart_decNumHosts (rx : Bool) : (b.decNumHosts env h rx).macPart = b.macPart := by
  unfold decNumHosts; split <;> [rfl; split <;> rfl]

@[simp] theorem hostPart_addPoolNumHosts (p : ℕ) (inl : Bool) (v : ℤ) :
    (b.addPoolNumHosts env p inl v).hostPart = b.hostPart := by
  unfold addPoolNumHosts; split <;> [split <;> rfl; rfl]

@[simp] theorem macPart_addPoolNumHosts (p : ℕ) (inl : Bool) (v : ℤ) :
    (b.addPoolNumHosts env p inl v).macPart = b.macPart := by
  unfold addPoolNumHosts; split <;> [split <;> rfl; rfl]

@[simp] theorem hostPart_addNetworkHosts (v : UInt32) : (b.addNetworkHosts env h v).hostPart = b.hostPart := by
  unfold addNetworkHosts; split <;> [split <;> rfl; rfl]

@[simp] theorem poolPart_addNetworkHosts (v : UInt32) : (b.addNetworkHosts env h v).poolPart = b.poolPart := by
  unfold addNetworkHosts; split <;> [split <;> rfl; rfl]

@[simp] theorem macPart_addNetworkHosts (v : UInt32) : (b.addNetworkHosts env h v).macPart = b.macPart := by
  unfold addNetworkHosts; split <;> [split <;> rfl; rfl]

end

@[simp] theorem hostPart_decNumRemoteHosts (m : M) : (b.decNumRemoteHosts m).hostPart = b.hostPart := by
  unfold decNumRemoteHosts; split <;> rfl

@[simp] theorem poolPart_decNumRemoteHosts (m : M) : (b.decNumRemoteHosts m).poolPart = b.poolPart := by
  unfold decNumRemoteHosts; split <;> rfl

@[simp] theorem hostPart_incNumRemoteHosts (m : M) : (b.incNumRemoteHosts m).hostPart = b.hostPart := rfl
@[simp] theorem poolPart_incNumRemoteHosts (m : M) : (b.incNumRemoteHosts m).poolPart = b.poolPart := rfl
@[simp] theorem hostPart_incUses (m : M) : (b.incUses m).hostPart = b.hostPart := rfl
@[simp] theorem poolPart_incUses (m : M) : (b.incUses m).poolPart = b.poolPart := rfl
@[simp] theorem macPart_incUses (m : M) : (b.incUses m).macPart = b.macPart := rfl
@[simp] theorem hostPart_decUses (m : M) : (b.decUses m).hostPart = b.hostPart := rfl
@[simp] theorem poolPart_decUses (m : M) : (b.decUses m).poolPart = b.poolPart := rfl
@[simp] theorem macPart_decUses (m : M) : (b.decUses m).macPart = b.macPart := rfl

@[simp] theorem hostPart_leaveMac : (leaveMac b h).hostPart = b.hostPart := by
  unfold leaveMac
  split
  · rfl
  · split <;> simp

@[simp] theorem poolPart_leaveMac : (leaveMac b h).poolPart = b.poolPart := by
  unfold leaveMac
  split
  · rfl
  · split <;> simp

@[simp] theorem hostPart_joinMac (m : M) : (joinMac b h m).hostPart = b.hostPart := by
  unfold joinMac
  split <;> simp

@[simp] theorem poolPart_joinMac (m : M) : (joinMac b h m).poolPart = b.poolPart := by
  unfold joinMac
  split <;> simp

/-! ### What is moved -/

variable {b h}

section

omit [DecidableEq M]

theorem numHosts_incNumHosts (hrun : env.isShuttingDown = false) (rx : Bool) (c : Counter) :
    (b.incNumHosts env h rx).numHosts c = b.numHosts c + (h.isUnicastHost env && c.counts h.isLocalHost rx).toNat := by
  unfold incNumHosts
  cases hu : h.isUnicastHost env
  · simp
  · simp only [hrun, Bool.not_true, Bool.false_eq_true, ite_false, Bool.true_and]
    cases c.counts h.isLocalHost rx <;> simp

theorem internalErrors_incNumHosts (rx : Bool) : (b.incNumHosts env h rx).internalErrors = b.internalErrors := by
  unfold incNumHosts; split <;> [rfl; split <;> rfl]

theorem numHosts_decNumHosts (hrun : env.isShuttingDown = false) (rx : Bool) (c : Counter) :
    (b.decNumHosts env h rx).numHosts c = b.numHosts c - (h.isUnicastHost env && c.counts h.isLocalHost rx).toNat := by
  unfold decNumHosts
  cases hu : h.isUnicastHost env
  · simp
  · simp only [hrun, Bool.not_true, Bool.false_eq_true, ite_false, Bool.true_and]
    cases c.counts h.isLocalHost rx <;> simp

/-- No trace where every counter that is to go down counts something. -/
theorem internalErrors_decNumHosts {rx : Bool}
    (hpos : ∀ c : Counter, (h.isUnicastHost env && c.counts h.isLocalHost rx).toNat ≤ b.numHosts c) :
    (b.decNumHosts env h rx).internalErrors = b.internalErrors := by
  unfold decNumHosts
  cases hu : h.isUnicastHost env
  · rfl
  · rw [Bool.not_true, if_neg Bool.false_ne_true]
    split
    · rfl
    · have hnone : (Counter.all.filter fun c => c.counts h.isLocalHost rx && b.numHosts c == 0) = [] := by
        refine List.filter_eq_nil_iff.mpr fun c _ hc => ?_
        rw [Bool.and_eq_true, beq_iff_eq] at hc
        have := hpos c
        rw [hu, hc.1, hc.2] at this
        cases this
      simp only [hnone, List.append_nil]

theorem poolPart_addPoolNumHosts (p q : ℕ) (inl : Bool) (v : ℤ) :
    (b.addPoolNumHosts env p inl v).poolPart q = b.poolPart q + if q < env.maxNumPools ∧ p = q then v else 0 := by
  unfold addPoolNumHosts
  by_cases hp : p < env.maxNumPools
  · rcases eq_or_ne q p with rfl | hne
    · cases inl <;> simp [poolPart, add, hp] <;> omega
    · cases inl <;> simp [poolPart, add, hp, hne, hne.symm]
  · rcases eq_or_ne q p with rfl | hne
    · simp [hp]
    · simp [hp, hne.symm]

end

theorem numRemoteHosts_leaveMac (m : M) :
    (leaveMac b h).numRemoteHosts m = b.numRemoteHosts m - (!h.ip.isLocalHost && h.mac == some m).toNat := by
  unfold leaveMac
  cases hm : h.mac with
  | none => simp
  | some old =>
    cases hip : h.ip.isLocalHost with
    | true => simp [decUses]
    | false =>
      simp only [Bool.not_false, ite_true, Bool.true_and, decUses, decNumRemoteHosts]
      rcases eq_or_ne m old with rfl | hne
      · simp only [beq_self_eq_true, Bool.toNat_true]
        split
        · simp
        · show b.numRemoteHosts m = b.numRemoteHosts m - 1
          omega
      · have hb : (some old == some m) = false := by simpa using hne.symm
        rw [hb]
        split
        · simp [hne]
        · simp

theorem noRemoteHosts_leaveMac
    (hpos : ∀ m, (!h.ip.isLocalHost && h.mac == some m).toNat ≤ b.numRemoteHosts m) :
    (leaveMac b h).noRemoteHosts = b.noRemoteHosts := by
  unfold leaveMac
  cases hm : h.mac with
  | none => rfl
  | some old =>
    cases hip : h.ip.isLocalHost with
    | true => rfl
    | false =>
      have := hpos old
      rw [hm, hip] at this
      rw [beq_self_eq_true] at this
      have hold : 0 < b.numRemoteHosts old := this
      simp only [Bool.not_false, ite_true, decUses, decNumRemoteHosts, if_pos hold]

theorem numRemoteHosts_joinMac (m j : M) :
    (joinMac b h m).numRemoteHosts j = b.numRemoteHosts j + (!h.ip.isLocalHost && some m == some j).toNat := by
  unfold joinMac
  cases h.ip.isLocalHost with
  | true => rfl
  | false =>
    rcases eq_or_ne j m with rfl | hne
    · simp [incNumRemoteHosts, incUses, add]
    · have hb : (some m == some j) = false := by simpa using hne.symm
      rw [hb]
      simp [incNumRemoteHosts, incUses, add, hne]

theorem noRemoteHosts_joinMac (m : M) : (joinMac b h m).noRemoteHosts = b.noRemoteHosts := by
  unfold joinMac
  cases h.ip.isLocalHost <;> rfl

end Books

/-! ## What hosts move -/

variable {env} {tree : Option (PoolTree M A)} {b : Books M} {h : Host M A}

omit [DecidableEq M] in
theorem toggle_books (hrun : env.isShuttingDown = false) {rx : Bool} (hne : h.isRxOnly ≠ rx)
    (hpos : ∀ c, (hostKind env c h).toNat ≤ b.numHosts c) :
    (∀ c, (toggleRxOnlyHost env b h rx).1.numHosts c + (if rx then 0 else (hostKind env c h).toNat) =
      b.numHosts c + if rx then 0 else (hostKind env c { h with isRxOnly := rx }).toNat) ∧
    (toggleRxOnlyHost env b h rx).1.internalErrors = b.internalErrors ∧
    (toggleRxOnlyHost env b h rx).2 = { h with isRxOnly := rx } := by
  unfold toggleRxOnlyHost
  rw [if_neg hne]
  cases rx with
  | true => exact ⟨fun c => rfl, rfl, rfl⟩
  | false =>
    have htrue : h.isRxOnly = true := by simpa using hne
    have hpos' : ∀ c : Counter, (h.isUnicastHost env && c.counts h.isLocalHost true).toNat ≤ b.numHosts c := by
      intro c
      have := hpos c
      rwa [hostKind, htrue] at this
    refine ⟨fun c => ?_, ?_, rfl⟩
    · have hc := hpos' c
      simp only [Bool.false_eq_true, ite_false, ite_true, Books.numHosts_incNumHosts env hrun,
        Books.numHosts_decNumHosts env hrun, hostKind, htrue]
      show _ + (h.isUnicastHost env && c.counts h.isLocalHost false).toNat + _ =
        _ + (h.isUnicastHost env && c.counts h.isLocalHost false).toNat
      omega
    · simp only [ite_true]
      rw [Books.internalErrors_incNumHosts, Books.internalErrors_decNumHosts env hpos']

theorem setMac_books {m : M} (hne : h.mac ≠ some m)
    (hpos : ∀ j, (!h.ip.isLocalHost && h.mac == some j).toNat ≤ b.numRemoteHosts j) :
    (∀ j, (setMac b h (some m)).1.numRemoteHosts j + (!h.ip.isLocalHost && h.mac == some j).toNat =
      b.numRemoteHosts j + (!h.ip.isLocalHost && some m == some j).toNat) ∧
    (setMac b h (some m)).1.noRemoteHosts = b.noRemoteHosts ∧
    (setMac b h (some m)).2 = { h with mac := some m } := by
  simp only [setMac, if_neg hne]
  refine ⟨fun j => ?_, ?_, trivial⟩
  · have := hpos j
    rw [Books.numRemoteHosts_joinMac, Books.numRemoteHosts_leaveMac]
    omega
  · rw [Books.noRemoteHosts_joinMac, Books.noRemoteHosts_leaveMac hpos]

omit [DecidableEq M] in
/-- A host leaves the pool that it was counted in. -/
theorem updateHostPool_books (inl first : Bool) (p : ℕ) :
    (updateHostPool env tree b h inl first).1.poolPart p + (if first then 0 else (poolKind env p h).toNat : ℕ) =
      b.poolPart p + (poolKind env p (updateHostPool env tree b h inl first).2).toNat := by
  simp only [updateHostPool, Books.incPoolNumHosts, Books.decPoolNumHosts, Books.poolPart_addPoolNumHosts, poolKind]
  by_cases hp : p < env.maxNumPools
  · by_cases hq : (getPool env tree h).1 = p <;> by_cases ho : h.hostPoolId = p <;> cases first <;>
      simp [Books.poolPart_addPoolNumHosts, hp, hq, ho, beq_eq_false_iff_ne.mpr]
  · cases first <;> simp [Books.poolPart_addPoolNumHosts, hp]

/-! ### A host comes -/

/-- The host is counted, in its pool too; its MAC has been joined before. -/
structure Enters (env : Env M A) (b : Books M) (h : Host M A) (r : Books M × Host M A) : Prop where
  hosts : ∀ c, r.1.numHosts c = b.numHosts c + (hostKind env c r.2).toNat
  errors : r.1.internalErrors = b.internalErrors
  pools : ∀ p, r.1.poolPart p = b.poolPart p + (poolKind env p r.2).toNat
  macs : r.1.macPart = b.macPart
  cls : r.2.cls = h.cls
  ip : r.2.ip = h.ip
  mac : r.2.mac = h.mac

omit [DecidableEq M] in
theorem updateHostPool_hosts (inl first : Bool) :
    (updateHostPool env tree b h inl first).1.hostPart = b.hostPart ∧
      (updateHostPool env tree b h inl first).1.macPart = b.macPart := by
  unfold updateHostPool
  cases first <;> simp [Books.incPoolNumHosts, Books.decPoolNumHosts]

omit [DecidableEq M] in
theorem updateHostPool_first (p : ℕ) :
    (updateHostPool env tree b h true true).1.poolPart p =
      b.poolPart p + (poolKind env p (updateHostPool env tree b h true true).2).toNat := by
  rw [← updateHostPool_books]
  simp

omit [DecidableEq M] in
/-- Both classes end so. -/
theorem incNumHosts_enters (hrun : env.isShuttingDown = false) {b' : Books M} {h' : Host M A}
    (hhost : b'.hostPart = b.hostPart) (hmac : b'.macPart = b.macPart)
    (hpool : ∀ p, b'.poolPart p = b.poolPart p + (poolKind env p h').toNat)
    (hsame : h'.cls = h.cls ∧ h'.ip = h.ip ∧ h'.mac = h.mac) (hrx : h'.isRxOnly = true) :
    Enters env b h (b'.incNumHosts env h' true, h') := by
  obtain ⟨hn, he⟩ := Prod.mk.inj hhost
  refine ⟨fun c => ?_, ?_, fun p => ?_, ?_, hsame.1, hsame.2.1, hsame.2.2⟩
  · rw [Books.numHosts_incNumHosts env hrun, hn, hostKind, hrx]
  · rw [Books.internalErrors_incNumHosts, he]
  · rw [Books.poolPart_incNumHosts, hpool]
  · rw [Books.macPart_incNumHosts, hmac]

omit [DecidableEq M] in
theorem localHostInitialize_enters (hrun : env.isShuttingDown = false) (hrx : h.isRxOnly = true) :
    Enters env b h (localHostInitialize env tree b h) := by
  obtain ⟨hhost, hmac⟩ := @updateHostPool_hosts M A env tree b h true true
  refine incNumHosts_enters hrun ?_ ?_ (fun p => ?_) ⟨rfl, rfl, rfl⟩ hrx
  · exact (Books.hostPart_addNetworkHosts ..).trans hhost
  · exact (Books.macPart_addNetworkHosts ..).trans hmac
  · exact (congrFun (Books.poolPart_addNetworkHosts ..) p).trans (updateHostPool_first p)

omit [DecidableEq M] in
theorem remoteHostInitialize_enters (hrun : env.isShuttingDown = false) (hrx : h.isRxOnly = true) :
    Enters env b h (remoteHostInitialize env tree b h) := by
  obtain ⟨hhost, hmac⟩ := @updateHostPool_hosts M A env tree b h true true
  exact incNumHosts_enters hrun hhost hmac updateHostPool_first ⟨rfl, rfl, rfl⟩ hrx

def joinOption (b : Books M) (h : Host M A) : Books M :=
  match h.mac with
  | some m => joinMac b h m
  | none => b

theorem numRemoteHosts_joinOption (j : M) :
    (joinOption b h).numRemoteHosts j = b.numRemoteHosts j + (!h.ip.isLocalHost && h.mac == some j).toNat := by
  unfold joinOption
  cases h.mac with
  | some m => exact Books.numRemoteHosts_joinMac m j
  | none => simp

theorem newHost_enters (hrun : env.isShuttingDown = false) (ip : IpAddress A) (vlanId : Nat) (mac : Option M) :
    ∃ h : Host M A, h.isLocalHost = isLocal env tree ip vlanId ∧ h.ip = ip ∧ h.mac = mac ∧
      (joinOption b h).hostPart = b.hostPart ∧ (joinOption b h).poolPart = b.poolPart ∧
      (joinOption b h).noRemoteHosts = b.noRemoteHosts ∧
      Enters env (joinOption b h) h (newHost env tree b ip vlanId mac) := by
  have hjoin : ∀ h : Host M A, (joinOption b h).hostPart = b.hostPart ∧ (joinOption b h).poolPart = b.poolPart ∧
      (joinOption b h).noRemoteHosts = b.noRemoteHosts := by
    intro h
    unfold joinOption
    split
    · exact ⟨Books.hostPart_joinMac .., Books.poolPart_joinMac .., Books.noRemoteHosts_joinMac ..⟩
    · exact ⟨rfl, rfl, rfl⟩
  unfold newHost
  by_cases hl : isLocal env tree ip vlanId = true
  · refine ⟨⟨.localHost, ip, vlanId, mac, true, NO_HOST_POOL_ID, false, none, false⟩, hl.symm, rfl, rfl, (hjoin _).1,
      (hjoin _).2.1, (hjoin _).2.2, ?_⟩
    rw [if_pos hl]
    cases mac <;> exact localHostInitialize_enters hrun rfl
  · refine ⟨⟨.remoteHost, ip, vlanId, mac, true, NO_HOST_POOL_ID, false, none, false⟩, ?_, rfl, rfl, (hjoin _).1,
      (hjoin _).2.1, (hjoin _).2.2, ?_⟩
    · exact (Bool.eq_false_of_not_eq_true hl).symm
    · rw [if_neg hl]
      cases mac <;> exact remoteHostInitialize_enters hrun rfl

/-! ### A host goes -/

theorem deleteHost_books (hrun : env.isShuttingDown = false)
    (hpos : ∀ c, (hostKind env c h).toNat ≤ b.numHosts c)
    (hmac : ∀ j, (!h.ip.isLocalHost && h.mac == some j).toNat ≤ b.numRemoteHosts j) :
    (∀ c, (deleteHost env b h).numHosts c + (hostKind env c h).toNat = b.numHosts c) ∧
    (deleteHost env b h).internalErrors = b.internalErrors ∧
    (∀ p, (deleteHost env b h).poolPart p + (poolKind env p h).toNat = b.poolPart p) ∧
    (∀ j, (deleteHost env b h).numRemoteHosts j + (!h.ip.isLocalHost && h.mac == some j).toNat = b.numRemoteHosts j) ∧
    (deleteHost env b h).noRemoteHosts = b.noRemoteHosts := by
  have hhost : (deleteHost env b h).hostPart = (b.decNumHosts env h h.isRxOnly).hostPart := by
    simp [deleteHost, Books.decPoolNumHosts]
  have hmacs : (deleteHost env b h).macPart = (leaveMac (b.decNumHosts env h h.isRxOnly) h).macPart := by
    simp [deleteHost, Books.decPoolNumHosts]
  have hdec := b.macPart_decNumHosts env h h.isRxOnly
  obtain ⟨hn, he⟩ := Prod.mk.inj hhost
  obtain ⟨hr, hr0⟩ := Prod.mk.inj hmacs
  obtain ⟨hd, hd0⟩ := Prod.mk.inj hdec
  rw [← hd] at hmac ⊢
  refine ⟨fun c => ?_, ?_, fun p => ?_, fun j => ?_, ?_⟩
  · have := hpos c
    rw [hn, Books.numHosts_decNumHosts env hrun]
    unfold hostKind at this ⊢
    omega
  · rw [he, Books.internalErrors_decNumHosts env hpos]
  · simp only [deleteHost, Books.decPoolNumHosts, Books.poolPart_addPoolNumHosts, Books.poolPart_leaveMac,
      Books.poolPart_decNumHosts, poolKind]
    by_cases hp : p < env.maxNumPools <;> by_cases hq : h.hostPoolId = p <;>
      simp [hp, hq, beq_eq_false_iff_ne.mpr]
  · have := hmac j
    rw [hr, Books.numRemoteHosts_leaveMac]
    omega
  · rw [hr0, Books.noRemoteHosts_leaveMac hmac, hd0]

/-! ## The law as three countings -/

def Tied (h : Host M A) : Prop := h.mac.isSome → h.isLocalHost = h.ip.isLocalHost

structure Balanced (env : Env M A) (b : Books M) (l : List (Host M A)) : Prop where
  hosts : Counts (hostKind env) (fun c => (b.numHosts c : ℤ)) l
  pools : Counts (poolKind env) b.poolPart l
  macs : Counts macKind (fun m => (b.numRemoteHosts m : ℤ)) l
  errors : b.internalErrors = [] ∧ b.noRemoteHosts = 0

structure Inv (env : Env M A) (s : Iface M A) : Prop where
  balanced : Balanced env s.books s.hosts
  tied : ∀ h ∈ s.hosts, Tied h
  /-- No host of a remote class has a local address. -/
  remote : ∀ h ∈ s.hosts, h.ip.isLocalHost → h.isLocalHost

omit [DecidableEq M] in
theorem countP_poolKind {p : ℕ} (hp : p < env.maxNumPools) (l : List (Host M A)) :
    l.countP (poolKind env p) = l.countP fun h => h.hostPoolId == p :=
  List.countP_congr fun h _ => by simp [poolKind, hp]

theorem law_of_balanced {s : Iface M A} (hb : Balanced env s.books s.hosts) : Law env s where
  hosts c := Nat.cast_injective (hb.hosts c)
  pools p hp := by
    rw [← countP_poolKind hp]
    exact hb.pools p
  macs m := Nat.cast_injective (hb.macs m)
  errors := hb.errors

/-- A MAC whose host is of the class its address says takes exactly the remote ones. -/
theorem macKind_of_tied (ht : Tied h) (m : M) : (!h.ip.isLocalHost && h.mac == some m) = macKind m h := by
  unfold macKind
  rcases hm : h.mac with _ | old
  · simp
  · rw [ht (by rw [hm]; rfl)]

/-! ### A step -/

variable {s : Iface M A}

theorem law_host {s' : Iface M A} (hs : Law env s') : Counts (hostKind env) (fun c => (s'.books.numHosts c : ℤ)) s'.hosts :=
  fun c => congrArg Nat.cast (hs.hosts c)

theorem law_mac {s' : Iface M A} (hs : Law env s') :
    Counts macKind (fun m => (s'.books.numRemoteHosts m : ℤ)) s'.hosts :=
  fun m => congrArg Nat.cast (hs.macs m)

theorem hostKind_le (hi : Inv env s) {i : ℕ} (hget : s.hosts[i]? = some h) (c : Counter) :
    (hostKind env c h).toNat ≤ s.books.numHosts c := by
  exact_mod_cast hi.balanced.hosts.toNat_le hget c

theorem macKind_le (hi : Inv env s) {i : ℕ} (hget : s.hosts[i]? = some h) (m : M) :
    (!h.ip.isLocalHost && h.mac == some m).toNat ≤ s.books.numRemoteHosts m := by
  rw [macKind_of_tied (hi.tied h (List.mem_of_getElem? hget))]
  exact_mod_cast hi.balanced.macs.toNat_le hget m

/-- A host that is replaced: the three books and the two facts about the host. -/
theorem inv_set (hi : Inv env s) {i : ℕ} (hget : s.hosts[i]? = some h) {b' : Books M} {h' : Host M A}
    (hhost : ∀ c, b'.numHosts c + (hostKind env c h).toNat = s.books.numHosts c + (hostKind env c h').toNat)
    (hpool : ∀ p, b'.poolPart p + (poolKind env p h).toNat = s.books.poolPart p + (poolKind env p h').toNat)
    (hmac : ∀ m, b'.numRemoteHosts m + (macKind m h).toNat = s.books.numRemoteHosts m + (macKind m h').toNat)
    (herr : b'.internalErrors = s.books.internalErrors) (hrem : b'.noRemoteHosts = s.books.noRemoteHosts)
    (ht : Tied h') (hr : h'.ip.isLocalHost → h'.isLocalHost) :
    Inv env { s with books := b', hosts := s.hosts.set i h' } where
  balanced :=
    { hosts := (hi.balanced.hosts.set_iff hget h').mpr fun c => by exact_mod_cast hhost c
      pools := (hi.balanced.pools.set_iff hget h').mpr hpool
      macs := (hi.balanced.macs.set_iff hget h').mpr fun m => by exact_mod_cast hmac m
      errors := by
        rw [herr, hrem]
        exact hi.balanced.errors }
  tied x hx := by
    rcases List.mem_or_eq_of_mem_set hx with hx | rfl
    · exact hi.tied x hx
    · exact ht
  remote x hx := by
    rcases List.mem_or_eq_of_mem_set hx with hx | rfl
    · exact hi.remote x hx
    · exact hr

omit [DecidableEq M] in
theorem onHost_of_get {i : ℕ} (hget : s.hosts[i]? = some h) (f : Books M → Host M A → Books M × Host M A) :
    s.onHost i f = { s with books := (f s.books h).1, hosts := s.hosts.set i (f s.books h).2 } := by
  simp only [Iface.onHost, hget]

omit [DecidableEq M] in
theorem onHost_of_none {i : ℕ} (hget : s.hosts[i]? = none) (f : Books M → Host M A → Books M × Host M A) :
    s.onHost i f = s := by
  simp only [Iface.onHost, hget]

theorem inv_onHost {i : ℕ} {f : Books M → Host M A → Books M × Host M A} (hi : Inv env s)
    (hf : ∀ h, s.hosts[i]? = some h → Inv env (s.onHost i f)) : Inv env (s.onHost i f) := by
  rcases hget : s.hosts[i]? with _ | h
  · rw [onHost_of_none hget]
    exact hi
  · exact hf h hget

theorem inv_onHost_same {i : ℕ} {f : Books M → Host M A → Books M × Host M A} (hi : Inv env s)
    (hget : s.hosts[i]? = some h) (heq : f s.books h = (s.books, h)) : Inv env (s.onHost i f) := by
  have hmem := List.mem_of_getElem? hget
  rw [onHost_of_get hget, heq]
  exact inv_set hi hget (fun _ => rfl) (fun _ => rfl) (fun _ => rfl) rfl rfl (hi.tied h hmem) (hi.remote h hmem)

omit [DecidableEq M] in
theorem toggle_part (rx : Bool) :
    (toggleRxOnlyHost env b h rx).1.poolPart = b.poolPart ∧ (toggleRxOnlyHost env b h rx).1.macPart = b.macPart := by
  unfold toggleRxOnlyHost
  split
  · exact ⟨rfl, rfl⟩
  · cases rx <;> simp

theorem setMac_part (mac : Option M) :
    (setMac b h mac).1.hostPart = b.hostPart ∧ (setMac b h mac).1.poolPart = b.poolPart := by
  unfold setMac
  split
  · exact ⟨rfl, rfl⟩
  · split
    · exact ⟨rfl, rfl⟩
    · simp

omit [DecidableEq M] in
theorem idle_part :
    (setHashEntryStateIdle env b h).1.hostPart = b.hostPart ∧ (setHashEntryStateIdle env b h).1.poolPart = b.poolPart ∧
      (setHashEntryStateIdle env b h).1.macPart = b.macPart := by
  unfold setHashEntryStateIdle
  cases h.cls <;> simp

theorem inv_toggle (hrun : env.isShuttingDown = false) (hi : Inv env s) {i : ℕ} (hget : s.hosts[i]? = some h) {rx : Bool}
    (hok : rx → h.isUnicastHost env → h.isRxOnly) :
    Inv env (s.onHost i fun b h => toggleRxOnlyHost env b h rx) := by
  have hmem := List.mem_of_getElem? hget
  obtain ⟨hpool, hmac⟩ := @toggle_part M A env s.books h rx
  obtain ⟨hm, hm0⟩ := Prod.mk.inj hmac
  by_cases hsame : h.isRxOnly = rx
  · exact inv_onHost_same hi hget (if_pos hsame)
  · rw [onHost_of_get hget]
    obtain ⟨hhost, herr, heq⟩ := toggle_books hrun hsame (hostKind_le hi hget)
    refine inv_set hi hget (fun c => ?_) (fun p => ?_) (fun m => ?_) herr hm0 ?_ ?_ <;> rw [heq]
    · have := hhost c
      cases rx with
      | false => simpa using this
      | true =>
        have hrx : h.isRxOnly = false := by simpa using hsame
        have hu : h.isUnicastHost env = false := by
          cases hu : h.isUnicastHost env
          · rfl
          · rw [hok rfl hu] at hrx
            cases hrx
        have hu' : Host.isUnicastHost { h with isRxOnly := true } env = false := hu
        simpa [hostKind, hu, hu'] using this
    · rw [hpool]
      rfl
    · rw [hm]
      rfl
    · exact hi.tied h hmem
    · exact hi.remote h hmem

theorem inv_setMac (hi : Inv env s) {i : ℕ} (hget : s.hosts[i]? = some h) {mac : Option M}
    (hok : ∀ m, mac = some m → h.mac ≠ some m →
      Host.isUnicastHost { h with mac := some m } env = h.isUnicastHost env ∧ (h.isLocalHost → h.ip.isLocalHost)) :
    Inv env (s.onHost i fun b h => setMac b h mac) := by
  have hmem := List.mem_of_getElem? hget
  obtain ⟨hhost, hpool⟩ := @setMac_part M A _ s.books h mac
  obtain ⟨hn, he⟩ := Prod.mk.inj hhost
  rcases mac with _ | m
  · exact inv_onHost_same hi hget rfl
  by_cases hne : h.mac = some m
  · exact inv_onHost_same hi hget (if_pos hne)
  rw [onHost_of_get hget]
  obtain ⟨hu, hloc⟩ := hok m rfl hne
  obtain ⟨hmac, hrem, heq⟩ := setMac_books hne (macKind_le hi hget)
  have hcls : h.isLocalHost = h.ip.isLocalHost := by
    rw [Bool.eq_iff_iff]
    exact ⟨hloc, hi.remote h hmem⟩
  refine inv_set hi hget (fun c => ?_) (fun p => ?_) (fun j => ?_) he hrem ?_ ?_ <;> rw [heq]
  · have hk : hostKind env c { h with mac := some m } = hostKind env c h := by
      unfold hostKind
      rw [hu]
      rfl
    rw [hn, hk]
  · rw [hpool]
    rfl
  · have := hmac j
    rw [macKind_of_tied (hi.tied h hmem)] at this
    rw [this, ← hcls]
    rfl
  · exact fun _ => hcls
  · exact hi.remote h hmem

theorem inv_updateHostPool (hi : Inv env s) {i : ℕ} (hget : s.hosts[i]? = some h) (inl : Bool) :
    Inv env (s.onHost i fun b h => updateHostPool env s.tree b h inl false) := by
  rw [onHost_of_get hget]
  have hmem := List.mem_of_getElem? hget
  obtain ⟨hhost, hmac⟩ := @updateHostPool_hosts M A env s.tree s.books h inl false
  obtain ⟨hn, he⟩ := Prod.mk.inj hhost
  obtain ⟨hm, hm0⟩ := Prod.mk.inj hmac
  refine inv_set hi hget (fun c => ?_) (fun p => ?_) (fun m => ?_) he hm0 (hi.tied h hmem) (hi.remote h hmem)
  · rw [hn]
    rfl
  · simpa using @updateHostPool_books M A env s.tree s.books h inl false p
  · rw [hm]
    rfl

theorem inv_idle (hi : Inv env s) {i : ℕ} (hget : s.hosts[i]? = some h) :
    Inv env (s.onHost i fun b h => setHashEntryStateIdle env b h) := by
  rw [onHost_of_get hget]
  have hmem := List.mem_of_getElem? hget
  obtain ⟨hhost, hpool, hmac⟩ := @idle_part M A env s.books h
  obtain ⟨hn, he⟩ := Prod.mk.inj hhost
  obtain ⟨hm, hm0⟩ := Prod.mk.inj hmac
  refine inv_set hi hget (fun c => ?_) (fun p => ?_) (fun m => ?_) he hm0 (hi.tied h hmem) (hi.remote h hmem)
  · rw [hn]
    rfl
  · rw [hpool]
    rfl
  · rw [hm]
    rfl

theorem inv_deleteHost (hrun : env.isShuttingDown = false) (hi : Inv env s) {i : ℕ} (hget : s.hosts[i]? = some h) :
    Inv env { s with books := deleteHost env s.books h, hosts := s.hosts.eraseIdx i } := by
  obtain ⟨hhost, herr, hpool, hmac, hrem⟩ := deleteHost_books hrun (hostKind_le hi hget) (macKind_le hi hget)
  refine ⟨⟨?_, ?_, ?_, ?_⟩, fun x hx => hi.tied x (List.eraseIdx_subset hx), fun x hx => hi.remote x (List.eraseIdx_subset hx)⟩
  · exact (hi.balanced.hosts.eraseIdx_iff hget).mpr fun c => by exact_mod_cast hhost c
  · exact (hi.balanced.pools.eraseIdx_iff hget).mpr hpool
  · refine (hi.balanced.macs.eraseIdx_iff hget).mpr fun m => ?_
    rw [← macKind_of_tied (hi.tied h (List.mem_of_getElem? hget))]
    exact_mod_cast hmac m
  · rw [herr, hrem]
    exact hi.balanced.errors

theorem inv_newHost (hrun : env.isShuttingDown = false) (hi : Inv env s) {ip : IpAddress A} {vlanId : ℕ} {mac : Option M}
    (hok : mac.isSome → isLocal env s.tree ip vlanId → ip.isLocalHost) :
    Inv env { s with
      books := (newHost env s.tree s.books ip vlanId mac).1
      hosts := s.hosts ++ [(newHost env s.tree s.books ip vlanId mac).2] } := by
  obtain ⟨h, hcls, hip, hm, hj, hjp, hj0, he⟩ := @newHost_enters M A _ env s.tree s.books hrun ip vlanId mac
  obtain ⟨hjn, hje⟩ := Prod.mk.inj hj
  obtain ⟨hem, hem0⟩ := Prod.mk.inj he.macs
  have hlocal : (newHost env s.tree s.books ip vlanId mac).2.isLocalHost = isLocal env s.tree ip vlanId := by
    rw [← hcls]
    unfold Host.isLocalHost
    rw [he.cls]
  have hof : ip.isLocalHost = true → isLocal env s.tree ip vlanId = true := by
    intro h1
    simp [isLocal, h1]
  have htied : Tied (newHost env s.tree s.books ip vlanId mac).2 := by
    intro hsome
    rw [he.mac, hm] at hsome
    rw [hlocal, he.ip, hip, Bool.eq_iff_iff]
    exact ⟨hok hsome, hof⟩
  refine ⟨⟨?_, ?_, ?_, ?_⟩, ?_, ?_⟩
  · refine (hi.balanced.hosts.snoc_iff _).mpr fun c => ?_
    have := he.hosts c
    rw [hjn] at this
    exact_mod_cast this
  · refine (hi.balanced.pools.snoc_iff _).mpr fun p => ?_
    rw [he.pools, hjp]
  · refine (hi.balanced.macs.snoc_iff _).mpr fun m => ?_
    rw [← macKind_of_tied htied, he.ip, he.mac]
    have := numRemoteHosts_joinOption (b := s.books) (h := h) m
    rw [← hem] at this
    exact_mod_cast this
  · rw [he.errors, hje, hem0, hj0]
    exact hi.balanced.errors
  · intro x hx
    rcases List.mem_append.mp hx with hx | hx
    · exact hi.tied x hx
    · rw [List.mem_singleton.mp hx]
      exact htied
  · intro x hx
    rcases List.mem_append.mp hx with hx | hx
    · exact hi.remote x hx
    · rw [List.mem_singleton.mp hx, hlocal, he.ip, hip]
      exact hof

/-- What a sound step keeps. -/
theorem inv_step (hrun : env.isShuttingDown = false) (e : Ev M A) (hi : Inv env s) (hok : Sound env s e) :
    Inv env (s.step env e) := by
  cases e with
  | newHost ip vlanId mac => exact inv_newHost hrun hi hok
  | toggleRxOnlyHost i rx => exact inv_onHost hi fun h hget => inv_toggle hrun hi hget (hok h hget)
  | setMac i mac => exact inv_onHost hi fun h hget => inv_setMac hi hget fun m => hok h m hget
  | updateHostPool i inl => exact inv_onHost hi fun h hget => inv_updateHostPool hi hget inl
  | reloadPools tree => exact ⟨hi.balanced, hi.tied, hi.remote⟩
  | setHashEntryStateIdle i => exact inv_onHost hi fun h hget => inv_idle hi hget
  | deleteHost i =>
    rcases hget : s.hosts[i]? with _ | h
    · simp only [Iface.step, hget]
      exact hi
    · simp only [Iface.step, hget]
      exact inv_deleteHost hrun hi hget

/-! ### A step that is not sound -/

theorem not_law_toggle (hi : Inv env s) {i : ℕ} (hget : s.hosts[i]? = some h) (hu : h.isUnicastHost env)
    (hrx : h.isRxOnly = false) : ¬ Law env (s.step env (.toggleRxOnlyHost i true)) := by
  intro hs
  have hc := law_host hs
  have hne : h.isRxOnly ≠ true := by simp [hrx]
  simp only [Iface.step, onHost_of_get hget, toggleRxOnlyHost, if_neg hne] at hc
  have := (hi.balanced.hosts.set_iff hget _).mp hc .numTotalRxOnlyHosts
  have hu' : Host.isUnicastHost { h with isRxOnly := true } env = true := hu
  simp [hostKind, hu, hu', Counter.counts, hrx] at this

theorem not_law_setMac (hi : Inv env s) {i : ℕ} (hget : s.hosts[i]? = some h) {m : M} (hne : h.mac ≠ some m)
    (hbad : ¬ (Host.isUnicastHost { h with mac := some m } env = h.isUnicastHost env ∧
      (h.isLocalHost → h.ip.isLocalHost))) : ¬ Law env (s.step env (.setMac i (some m))) := by
  intro hs
  have hmem := List.mem_of_getElem? hget
  have hhosts := law_host hs
  have hmacs := law_mac hs
  obtain ⟨hmac, hrem, heq⟩ := setMac_books hne (macKind_le hi hget)
  obtain ⟨hhost, -⟩ := @setMac_part M A _ s.books h (some m)
  obtain ⟨hn, -⟩ := Prod.mk.inj hhost
  simp only [Iface.step, onHost_of_get hget, heq] at hhosts hmacs
  refine hbad ⟨?_, fun hl => ?_⟩
  · have := (hi.balanced.hosts.set_iff hget _).mp hhosts .totalNumHosts
    simp only [hn, hostKind, Counter.counts, Bool.and_true] at this
    cases hu : h.isUnicastHost env <;> cases hu' : Host.isUnicastHost { h with mac := some m } env <;>
      simp [hu, hu'] at this <;> rfl
  · have h1 := (hi.balanced.macs.set_iff hget _).mp hmacs m
    have h2 := hmac m
    rw [macKind_of_tied (hi.tied h hmem)] at h2
    have hl' : Host.isLocalHost { h with mac := some m } = true := hl
    simp only [macKind, hl, hl', Bool.not_true, Bool.false_and, Bool.toNat_false, beq_self_eq_true, Bool.and_true] at h1 h2
    cases hip : h.ip.isLocalHost
    · rw [hip] at h2
      simp at h1 h2
      omega
    · rfl

theorem not_law_newHost (hrun : env.isShuttingDown = false) (hi : Inv env s) {ip : IpAddress A} {vlanId : ℕ} {m : M}
    (hl : isLocal env s.tree ip vlanId = true) (hip : ip.isLocalHost = false) :
    ¬ Law env (s.step env (.newHost ip vlanId (some m))) := by
  intro hs
  have hmacs := law_mac hs
  obtain ⟨h, hcls, hhip, hm, -, -, -, he⟩ := @newHost_enters M A _ env s.tree s.books hrun ip vlanId (some m)
  obtain ⟨hem, -⟩ := Prod.mk.inj he.macs
  have h1 := (hi.balanced.macs.snoc_iff _).mp hmacs m
  have h2 := numRemoteHosts_joinOption (b := s.books) (h := h) m
  have hlocal : (newHost env s.tree s.books ip vlanId (some m)).2.isLocalHost = true := by
    rw [← hl, ← hcls]
    unfold Host.isLocalHost
    rw [he.cls]
  simp only [Iface.step] at h1
  rw [← hem, hhip, hm, hip] at h2
  simp only [macKind, hlocal, h2] at h1
  simp at h1

theorem not_law_of_not_sound (hrun : env.isShuttingDown = false) (e : Ev M A) (hi : Inv env s) (hbad : ¬ Sound env s e) :
    ¬ Law env (s.step env e) := by
  cases e with
  | newHost ip vlanId mac =>
    simp only [Sound, Classical.not_imp, Bool.not_eq_true] at hbad
    obtain ⟨hsome, hl, hip⟩ := hbad
    obtain ⟨m, rfl⟩ := Option.isSome_iff_exists.mp hsome
    exact not_law_newHost hrun hi hl hip
  | toggleRxOnlyHost i rx =>
    simp only [Sound, not_forall, Bool.not_eq_true] at hbad
    obtain ⟨h, hget, rfl, hu, hrx⟩ := hbad
    exact not_law_toggle hi hget hu hrx
  | setMac i mac =>
    simp only [Sound, not_forall] at hbad
    obtain ⟨h, m, hget, rfl, hne, hbad⟩ := hbad
    exact not_law_setMac hi hget hne hbad
  | updateHostPool i inl => exact absurd trivial hbad
  | reloadPools tree => exact absurd trivial hbad
  | setHashEntryStateIdle i => exact absurd trivial hbad
  | deleteHost i => exact absurd trivial hbad

/-! ## Runs -/

theorem inv_init : Inv env (Iface.init : Iface M A) where
  balanced := ⟨fun _ => rfl, fun _ => rfl, fun _ => rfl, rfl, rfl⟩
  tied _ hh := absurd hh List.not_mem_nil
  remote _ hh := absurd hh List.not_mem_nil

/-- The counters are right in every state of a run exactly if every step of it is sound: no
    unicast host is set receive-only, no change of the MAC makes a host unicast or not, and no
    local host of a remote address gets a MAC. -/
theorem law_iff_sound (env : Env M A) (hrun : env.isShuttingDown = false) (es : List (Ev M A)) :
    Always (Iface.step env) (Law env) Iface.init es ↔ Along (Iface.step env) (Sound env) Iface.init es :=
  always_iff_along _ (fun _ e hi hok => inv_step hrun e hi hok) (fun _ hi => law_of_balanced hi.balanced)
    (fun _ e hi hbad => not_law_of_not_sound hrun e hi hbad) inv_init

/-! ### An interface with two MAC addresses -/

/-- MAC 0 is a device, MAC 1 the broadcast address; address 7 is in a local ASN. -/
def demoEnv : Env ℕ ℕ where
  isBroadcast m := m == 1
  isSpecialMac m := m == 1
  isLocalInterfaceAddress _ := false
  isInLocalASN a := a == 7
  isLocalAddress _ := none
  useHostPoolsForLocal := false
  maxNumPools := 5
  isShuttingDown := false

def demoIp (a : ℕ) : IpAddress ℕ := ⟨a, false, false, false⟩

theorem law_iff_sound_demo :
    Always (Iface.step demoEnv) (Law demoEnv) Iface.init [.newHost (demoIp 8) 0 (some 0), .deleteHost 0] ↔
      Along (Iface.step demoEnv) (Sound demoEnv) Iface.init [.newHost (demoIp 8) 0 (some 0), .deleteHost 0] :=
  law_iff_sound demoEnv rfl _

/-- A remote host whose MAC becomes the broadcast address stays in the counters after it is
    deleted; a host of the local ASN is counted as remote behind its MAC. -/
theorem not_census_law :
    ¬ Law demoEnv (run (Iface.step demoEnv) Iface.init
      [.newHost (demoIp 8) 0 (some 0), .setMac 0 (some 1), .deleteHost 0]) ∧
    ¬ Law demoEnv (run (Iface.step demoEnv) Iface.init [.newHost (demoIp 7) 0 (some 0)]) := by
  refine ⟨fun h => ?_, fun h => ?_⟩
  · exact absurd (h.hosts .totalNumHosts) (by decide)
  · exact absurd (h.macs 0) (by decide)

end Ntopng.Hosts.Census
