/-
  Ntopng.Redis.CacheProofs — when the string cache is transparent (src/Redis.cpp).

  Two clients take the same calls, one with the cache and one without it, each in front of a
  server of its own. The law: they give the same answers, their servers stay the same, and the
  cache is honest: an entry that has not expired has the value of the server, now and until it
  expires (it is not stale, not truncated and not longer-lived).

  Proved (`transparent_of_safe`): the law holds in every run whose calls are safe (`Safe`). The
  calls that are not are those that leave a cached key behind (`getset`, `rename`, `expire`,
  a `setnx` that does not set), the reads that cache another value or another life than the
  server's, and the reads of an entry that stands for a missing, an empty or an expired value.
-/

import Mathlib
import Ntopng.Redis.Cache

namespace Ntopng.Redis

open Ntopng.Lib.Run

/-! ## The law -/

/-- Until it expires the entry has the value of the server; a missing key reads as empty. -/
def Backed (server : Server) (now : Nat) (key : Text) (x : StringCache) : Prop :=
  ∀ t, now ≤ t → x.expired t = false → (server.get t key).getD [] = x.value

def Honest (c : Client) : Prop := ∀ key x, c.stringCache key = some x → Backed c.server c.now key x

/-- The clients with and without the cache. -/
structure Twins where
  cached : Client
  plain : Client

variable (reported : Nat → Nat)

def Twins.step (t : Twins) (e : Ev) : Twins := ⟨Redis.step reported t.cached e, Redis.step reported t.plain e⟩

def Twins.init (now : Nat) (server : Server) : Twins := ⟨Client.init true now server, Client.init false now server⟩

def Transparent (now : Nat) (server : Server) (es : List Ev) : Prop :=
  Along (Twins.step reported) (fun t e => answer reported t.cached e = answer reported t.plain e)
      (Twins.init now server) es ∧
    Always (Twins.step reported) (fun t => t.cached.server = t.plain.server ∧ Honest t.cached)
      (Twins.init now server) es

/-! ## The calls that keep it -/

/-- An entry with this expiry, made now, does not outlive the key on the server. -/
def LivesAsLong (c : Client) (key : Text) (secs : Nat) : Prop :=
  ∀ s e, c.server.live c.now key = some s → s.expiry = some e → 0 < secs ∧ 1000 * (c.time + secs) ≤ e

/-- A `get` that finds an entry. -/
def SafeHit (c : Client) (key : Text) (rspLen : Nat) : Prop :=
  ∀ x s, c.stringCache key = some x → c.server.get c.now key = some s →
    x.expired c.now = false ∧ s ≠ [] ∧ 2 ≤ rspLen

/-- A `get` that does not: the value fits, and TTL tells how long it lives. -/
def SafeMiss (c : Client) (key : Text) (rspLen : Nat) : Prop :=
  (∀ s, c.server.get c.now key = some s → Client.snprintf s rspLen = s) ∧
    LivesAsLong c key (ttlSecs (c.server.ttl c.now key reported))

def Safe (c : Client) : Ev → Prop
  | .tick _ | .setInitializationComplete | .del _ | .flushDb => True
  | .set key _ expireSecs =>
    if isCacheable key then c.initializationCompleted = true → expireSecs.toNat < 2 ^ 31
    else c.stringCache key = none
  | .setnx key _ expireSecs =>
    if isCacheable key then
      c.initializationCompleted = true →
        c.server.live c.now key = none ∧ 0 < expireSecs.toNat ∧ expireSecs.toNat < 2 ^ 31
    else c.stringCache key = none
  | .get key rspLen cacheIt =>
    (isCacheable key = true → SafeHit c key rspLen) ∧
      ((isCacheable key = true → c.stringCache key = none) → (cacheIt || isCacheable key) = true →
        c.initializationCompleted = true → SafeMiss reported c key rspLen)
  | .getWithAlloc key cacheIt =>
    (cacheIt || isCacheable key) = true →
      (∀ x, c.stringCache key = some x → (c.server.get c.now key).isSome = true ∧
        (x.expired c.now = true → c.server.get c.now key = some x.value)) ∧
      (c.stringCache key = none → c.initializationCompleted = true → LivesAsLong c key 60)
  | .getset key _ _ => c.stringCache key = none
  | .rename key newKey =>
    (c.server.live c.now key).isSome = true → c.stringCache key = none ∧ c.stringCache newKey = none
  | .expire key _ =>
    ∀ x, c.stringCache key = some x → c.server.live c.now key = none ∧ x.expired c.now = false

/-! ## Entries and the server -/

variable {s s' : Server} {now t : Nat} {key : Text} {x : StringCache}

theorem live_some {y : Stored} (h : s.live t key = some y) : s key = some y ∧ y.expiry.all (t < ·) = true := by
  unfold Server.live at h
  exact (Option.filter_eq_some_iff.mp h)

theorem live_eq {y : Stored} (h : s key = some y) (hlive : y.expiry.all (t < ·) = true) : s.live t key = some y := by
  unfold Server.live
  exact Option.filter_eq_some_iff.mpr ⟨h, hlive⟩

theorem get_eq {y : Stored} (h : s key = some y) (hlive : y.expiry.all (t < ·) = true) : s.get t key = some y.value := by
  unfold Server.get
  rw [live_eq h hlive]
  rfl

/-- A key that is gone does not come back by itself. -/
theorem gone_stays (h : s.live now key = none) (hle : now ≤ t) : s.live t key = none := by
  unfold Server.live at *
  cases hk : s key with
  | none => rfl
  | some y =>
    rw [hk] at h
    rw [Option.filter_eq_none_iff] at h ⊢
    intro a ha hlive
    cases ha
    apply h y rfl
    cases hy : y.expiry with
    | none => rfl
    | some e =>
      rw [hy] at hlive
      simp only [Option.all_some, decide_eq_true_eq] at hlive ⊢
      omega

theorem get_gone (h : s.live now key = none) (hle : now ≤ t) : s.get t key = none := by
  unfold Server.get
  rw [gone_stays h hle]
  rfl

theorem backed_congr (h : s' key = s key) (hb : Backed s now key x) : Backed s' now key x := by
  intro t hle hx
  have hget : s'.get t key = s.get t key := by
    unfold Server.get Server.live
    rw [h]
  rw [hget]
  exact hb t hle hx

theorem backed_later {now' : Nat} (hle : now ≤ now') (hb : Backed s now key x) : Backed s now' key x :=
  fun t ht hx => hb t (le_trans hle ht) hx

/-- What the server keeps for good backs any entry with its value. -/
theorem backed_forever {v : Text} (h : s key = some ⟨v, none⟩) (e : Nat) : Backed s now key ⟨v, e⟩ := by
  intro t _ _
  rw [get_eq h rfl]
  rfl

theorem backed_until {v : Text} {e secs : Nat} (h : s key = some ⟨v, some e⟩) (hsecs : 0 < secs)
    (he : 1000 * (now / 1000 + secs) ≤ e) : Backed s now key ⟨v, now / 1000 + secs⟩ := by
  intro t _ hx
  have hlt : t < e := by
    unfold StringCache.expired at hx
    simp only [Bool.and_eq_false_iff, decide_eq_false_iff_not] at hx
    omega
  rw [get_eq h (by simpa using hlt)]
  rfl

theorem backed_gone (h : s.live now key = none) (e : Nat) : Backed s now key ⟨[], e⟩ := by
  intro t hle _
  rw [get_gone h hle]
  rfl

theorem put_same (s : Server) (key : Text) (y : Option Stored) : s.put key y key = y := if_pos rfl

theorem put_other (s : Server) {key k : Text} (y : Option Stored) (h : k ≠ key) : s.put key y k = s k := if_neg h

theorem setEx_other {k : Text} (h : k ≠ key) (v : Text) (secs : Int) : s.setEx now key v secs k = s k := by
  unfold Server.setEx
  split
  · exact put_other s _ h
  · rfl

theorem setNxEx_other {k : Text} (h : k ≠ key) (v : Text) (secs : Int) : s.setNxEx now key v secs k = s k := by
  unfold Server.setNxEx
  split
  · exact setEx_other h v secs
  · rfl

theorem expire_other {k : Text} (h : k ≠ key) (secs : Nat) : s.expire now key secs k = s k := by
  unfold Server.expire
  cases s.live now key with
  | some x => exact put_other s _ h
  | none => rfl

theorem expire_gone (h : s.live now key = none) (secs : Nat) : s.expire now key secs = s := by
  unfold Server.expire
  rw [h]

/-! ## The two clients -/

/-- The same server, and an honest cache on one side. -/
structure Sim (a b : Client) : Prop where
  caching : a.caching = true
  plain : b.caching = false
  plainCache : ∀ key, b.stringCache key = none
  now : b.now = a.now
  initializationCompleted : b.initializationCompleted = a.initializationCompleted
  server : b.server = a.server
  uninitialized : a.initializationCompleted = false → ∀ key, a.stringCache key = none
  honest : Honest a

variable {a b : Client}

/-- A call that touches one key on the server and in the cache. -/
theorem honest_update {c c' : Client} (h : Honest c) (hnow : c'.now = c.now) (key : Text)
    (hserver : ∀ k, k ≠ key → c'.server k = c.server k)
    (hcache : ∀ k, k ≠ key → c'.stringCache k = c.stringCache k)
    (hkey : ∀ x, c'.stringCache key = some x → Backed c'.server c'.now key x) : Honest c' := by
  intro k x hx
  by_cases hk : k = key
  · subst hk
    exact hkey x hx
  · rw [hcache k hk] at hx
    rw [hnow]
    exact backed_congr (hserver k hk) (h k x hx)

theorem addToCache_plain (h : b.caching = false) (key value : Text) (n : Nat) : b.addToCache key value n = b := by
  unfold Client.addToCache
  rw [h]
  rfl

theorem addToCache_uninitialized {c : Client} (h : c.initializationCompleted = false) (key value : Text) (n : Nat) :
    c.addToCache key value n = c := by
  unfold Client.addToCache
  rw [h, Bool.and_false]
  rfl

theorem addToCache_caching (hc : a.caching = true) (hi : a.initializationCompleted = true) (key value : Text) (n : Nat) :
    a.addToCache key value n = a.cache key ⟨value, if 0 < n then a.time + n else 0⟩ := by
  unfold Client.addToCache
  rw [hc, hi]
  rfl

theorem addToCache_same (c : Client) (key value : Text) (n : Nat) :
    (c.addToCache key value n).caching = c.caching ∧
      (c.addToCache key value n).initializationCompleted = c.initializationCompleted ∧
      (c.addToCache key value n).now = c.now ∧ (c.addToCache key value n).server = c.server := by
  unfold Client.addToCache Client.cache
  split <;> exact ⟨rfl, rfl, rfl, rfl⟩

/-- An entry that the server backs may be added. -/
theorem sim_addToCache (h : Sim a b) (key value : Text) (n : Nat)
    (hb : a.initializationCompleted = true → Backed a.server a.now key ⟨value, if 0 < n then a.time + n else 0⟩) :
    Sim (a.addToCache key value n) (b.addToCache key value n) := by
  rw [addToCache_plain h.plain]
  cases hi : a.initializationCompleted with
  | false =>
    rw [addToCache_uninitialized hi]
    exact h
  | true =>
    rw [addToCache_caching h.caching hi]
    refine ⟨h.caching, h.plain, h.plainCache, h.now, h.initializationCompleted, h.server, ?_, ?_⟩
    · intro hno
      exact absurd (hi.symm.trans hno) (by decide)
    · refine honest_update h.honest ?_ key ?_ ?_ ?_
      · rfl
      · intro k _
        rfl
      · intro k hk
        exact if_neg hk
      · intro x hx
        have hx' : x = ⟨value, if 0 < n then a.time + n else 0⟩ := by
          have hself : (a.cache key ⟨value, if 0 < n then a.time + n else 0⟩).stringCache key =
              some ⟨value, if 0 < n then a.time + n else 0⟩ := if_pos rfl
          rw [hself] at hx
          exact (Option.some.inj hx).symm
        rw [hx']
        exact hb hi

/-- A new state of the server for a key that no entry stands for. -/
theorem sim_server (h : Sim a b) {server server' : Server} (heq : server' = server) (key : Text)
    (hother : ∀ k, k ≠ key → server k = a.server k)
    (hkey : ∀ x, a.stringCache key = some x → Backed server a.now key x) :
    Sim { a with server := server } { b with server := server' } where
  caching := h.caching
  plain := h.plain
  plainCache := h.plainCache
  now := h.now
  initializationCompleted := h.initializationCompleted
  server := heq
  uninitialized := h.uninitialized
  honest := honest_update h.honest rfl key hother (fun _ _ => rfl) hkey

/-- What `_set` sends to the server. -/
def written (s : Server) (now : Nat) (key : Text) (useNx : Bool) (value : Text) (expireSecs : UInt32) : Server :=
  if useNx then s.setNxEx now key value (printedSigned expireSecs)
  else if 0 < expireSecs.toNat then s.setEx now key value (printedSigned expireSecs)
  else s.put key (some ⟨value, none⟩)

theorem written_other (s : Server) (now : Nat) {key k : Text} (h : k ≠ key) (useNx : Bool) (value : Text)
    (expireSecs : UInt32) : written s now key useNx value expireSecs k = s k := by
  unfold written
  split
  · exact setNxEx_other h ..
  split
  · exact setEx_other h ..
  · exact put_other s _ h

theorem setLocked_eq (c : Client) (key : Text) (useNx : Bool) (value : Text) (n : UInt32) :
    c.setLocked key useNx value n =
      { (if isCacheable key then c.addToCache key value n.toNat else c) with
        server := written c.server c.now key useNx value n } := by
  unfold Client.setLocked written
  dsimp only
  split
  · rw [(addToCache_same c key value n.toNat).2.2.2, (addToCache_same c key value n.toNat).2.2.1]
  · rfl

/-- When `_set` writes what it caches. -/
def Writes (c : Client) (key : Text) (useNx : Bool) (expireSecs : UInt32) : Prop :=
  expireSecs.toNat < 2 ^ 31 ∧ (useNx = true → c.server.live c.now key = none ∧ 0 < expireSecs.toNat)

theorem written_backs (c : Client) (key : Text) (useNx : Bool) (value : Text) (n : UInt32)
    (h : Writes c key useNx n) :
    Backed (written c.server c.now key useNx value n) c.now key ⟨value, if 0 < n.toNat then c.time + n.toNat else 0⟩ := by
  obtain ⟨hn, hnx⟩ := h
  have hprint : printedSigned n = (n.toNat : Int) := if_pos hn
  by_cases hpos : 0 < n.toNat
  · have hkey : written c.server c.now key useNx value n key = some ⟨value, some (c.now + 1000 * n.toNat)⟩ := by
      have hex : c.server.setEx c.now key value (printedSigned n) key = some ⟨value, some (c.now + 1000 * n.toNat)⟩ := by
        unfold Server.setEx
        rw [hprint, if_pos (by exact_mod_cast hpos), put_same]
        rfl
      unfold written
      cases hu : useNx with
      | true =>
        unfold Server.setNxEx
        rw [(hnx hu).1]
        exact hex
      | false =>
        rw [if_neg Bool.false_ne_true, if_pos hpos]
        exact hex
    rw [if_pos hpos]
    exact backed_until hkey hpos (by omega)
  · have hu : useNx = false := by
      cases useNx with
      | false => rfl
      | true => exact absurd (hnx rfl).2 hpos
    have hkey : written c.server c.now key useNx value n key = some ⟨value, none⟩ := by
      unfold written
      rw [hu, if_neg Bool.false_ne_true, if_neg hpos, put_same]
    exact backed_forever hkey _

theorem sim_setLocked (h : Sim a b) (key : Text) (useNx : Bool) (value : Text) (n : UInt32)
    (hwrites : isCacheable key = true → a.initializationCompleted = true → Writes a key useNx n)
    (hkey : isCacheable key = false → a.stringCache key = none) :
    Sim (a.setLocked key useNx value n) (b.setLocked key useNx value n) := by
  rw [setLocked_eq, setLocked_eq, h.server, h.now]
  have hother : ∀ k, k ≠ key → written a.server a.now key useNx value n k = a.server k :=
    fun k hk => written_other a.server a.now hk useNx value n
  by_cases hc : isCacheable key = true
  · rw [if_pos hc, if_pos hc, addToCache_plain h.plain]
    cases hi : a.initializationCompleted with
    | false =>
      rw [addToCache_uninitialized hi]
      exact sim_server h rfl key hother fun x hx => by rw [h.uninitialized hi] at hx; cases hx
    | true =>
      have hb := written_backs a key useNx value n (hwrites hc hi)
      rw [addToCache_caching h.caching hi]
      refine ⟨h.caching, h.plain, h.plainCache, h.now, h.initializationCompleted, rfl, ?_, ?_⟩
      · intro hno
        exact absurd (hi.symm.trans hno) (by decide)
      · refine honest_update h.honest ?_ key hother ?_ ?_
        · rfl
        · intro k hk
          exact if_neg hk
        · intro x hx
          have hself : (a.cache key ⟨value, if 0 < n.toNat then a.time + n.toNat else 0⟩).stringCache key =
              some ⟨value, if 0 < n.toNat then a.time + n.toNat else 0⟩ := if_pos rfl
          have hx' := Option.some.inj (hself.symm.trans hx)
          rw [← hx']
          exact hb
  · rw [if_neg hc, if_neg hc]
    exact sim_server h rfl key hother fun x hx => by
      rw [hkey (Bool.eq_false_iff.mpr hc)] at hx
      cases hx

theorem setLocked_same (c : Client) (key : Text) (useNx : Bool) (value : Text) (n : UInt32) :
    (c.setLocked key useNx value n).initializationCompleted = c.initializationCompleted := by
  rw [setLocked_eq]
  dsimp only
  split
  · exact (addToCache_same c key value n.toNat).2.1
  · rfl

theorem sim_checkDumpable (h : Sim a b) (key : Text) : Sim (a.checkDumpable key) (b.checkDumpable key) := by
  unfold Client.checkDumpable
  rw [h.initializationCompleted]
  split
  · exact sim_setLocked h PREFS_CHANGED false _ 0 (fun _ _ => ⟨by decide, fun hnx => by cases hnx⟩)
      (fun hno => absurd hno (by decide))
  · exact h

theorem sim_set (h : Sim a b) (key : Text) (useNx : Bool) (value : Text) (n : UInt32)
    (hwrites : isCacheable key = true → a.initializationCompleted = true → Writes a key useNx n)
    (hkey : isCacheable key = false → a.stringCache key = none) :
    Sim (a.set key useNx value n) (b.set key useNx value n) := by
  have hlocked := sim_setLocked h key useNx value n hwrites hkey
  unfold Client.set
  dsimp only
  split
  · exact sim_checkDumpable hlocked key
  · exact hlocked

theorem sim_uncache (h : Sim a b) (key : Text) : Sim (a.uncache key) b where
  caching := h.caching
  plain := h.plain
  plainCache := h.plainCache
  now := h.now
  initializationCompleted := h.initializationCompleted
  server := h.server
  uninitialized hi k := by
    unfold Client.uncache
    dsimp only
    split
    · rfl
    · exact h.uninitialized hi k
  honest := by
    refine honest_update h.honest ?_ key ?_ ?_ ?_
    · rfl
    · intro k _
      rfl
    · intro k hk
      exact if_neg hk
    · intro x hx
      have hnone : (a.uncache key).stringCache key = none := if_pos rfl
      rw [hnone] at hx
      cases hx

theorem uncache_plain (h : Sim a b) (key : Text) : b.uncache key = b := by
  unfold Client.uncache
  have hcache : (fun k => if k = key then none else b.stringCache k) = b.stringCache := by
    funext k
    rw [h.plainCache k]
    exact ite_self none
  rw [hcache]

theorem sim_del (h : Sim a b) (key : Text) : Sim (a.del key) (b.del key) := by
  have hun := sim_uncache h key
  unfold Client.del
  rw [uncache_plain h]
  apply sim_checkDumpable
  refine sim_server hun (by rw [h.server]) key (fun k hk => put_other a.server none hk) ?_
  intro x hx
  have hnone : (a.uncache key).stringCache key = none := if_pos rfl
  rw [hnone] at hx
  cases hx

theorem getset_other {k : Text} (hk : k ≠ key) (v : Text) (n : UInt32) :
    (if 0 < n.toNat then (s.getset key v).expire now key n.toNat else s.getset key v) k = s k := by
  split
  · rw [expire_other hk]
    exact put_other s _ hk
  · exact put_other s _ hk

theorem sim_getset (h : Sim a b) (key value : Text) (n : UInt32) (hkey : a.stringCache key = none) :
    Sim (a.getset key value n).2 (b.getset key value n).2 := by
  unfold Client.getset
  refine sim_server h ?_ key ?_ ?_
  · rw [h.server, h.now]
  · exact fun k hk => getset_other hk value n
  · intro x hx
    rw [hkey] at hx
    cases hx

theorem sim_rename (h : Sim a b) (key newKey : Text)
    (hkeys : (a.server.live a.now key).isSome = true → a.stringCache key = none ∧ a.stringCache newKey = none) :
    Sim (a.rename key newKey).2 (b.rename key newKey).2 := by
  have hserver : b.server.rename b.now key newKey = a.server.rename a.now key newKey := by
    rw [h.server, h.now]
  cases hlive : a.server.live a.now key with
  | none =>
    have hsame : a.server.rename a.now key newKey = a.server := by
      unfold Server.rename
      rw [hlive]
    exact sim_server h hserver key (fun k _ => congrFun hsame k) (fun x hx => by rw [hsame]; exact h.honest key x hx)
  | some x =>
    obtain ⟨hkey, hnew⟩ := hkeys (by rw [hlive]; rfl)
    have hput : Sim { a with server := a.server.put key none } { b with server := a.server.put key none } :=
      sim_server h rfl key (fun k hk => put_other a.server none hk) (fun x hx => by rw [hkey] at hx; cases hx)
    have hmoved : a.server.rename a.now key newKey = (a.server.put key none).put newKey (some x) := by
      unfold Server.rename
      rw [hlive]
    rw [hmoved] at hserver
    unfold Client.rename
    rw [hmoved]
    exact sim_server hput hserver newKey (fun k hk => put_other _ (some x) hk)
      (fun x hx => by rw [hnew] at hx; cases hx)

theorem expireCache_plain (h : Sim a b) (key : Text) (n : UInt32) : b.expireCache key n = none := by
  unfold Client.expireCache
  rw [h.plainCache key]
  rfl

theorem sim_expire (h : Sim a b) (key : Text) (n : UInt32)
    (hkey : ∀ x, a.stringCache key = some x → a.server.live a.now key = none ∧ x.expired a.now = false) :
    Sim (a.expire key n) (b.expire key n) := by
  unfold Client.expire
  rw [expireCache_plain h]
  unfold Client.expireCache
  cases hx : a.stringCache key with
  | none =>
    dsimp only [Option.map_none]
    refine sim_server h ?_ key ?_ ?_
    · rw [h.server, h.now]
    · exact fun k hk => expire_other hk n.toNat
    · intro x hx'
      rw [hx] at hx'
      cases hx'
  | some x =>
    obtain ⟨hgone, hvalid⟩ := hkey x hx
    dsimp only [Option.map_some]
    have hserver : b.server.expire b.now key n.toNat = a.server := by
      rw [h.server, h.now]
      exact expire_gone hgone n.toNat
    rw [hserver]
    have hempty : x.value = [] := by
      have := h.honest key x hx a.now (le_refl _) hvalid
      rw [get_gone hgone (le_refl _)] at this
      exact this.symm
    refine ⟨h.caching, h.plain, h.plainCache, h.now, h.initializationCompleted, rfl, ?_, ?_⟩
    · intro hi
      have hnone := h.uninitialized hi key
      rw [hx] at hnone
      cases hnone
    · refine honest_update h.honest ?_ key ?_ ?_ ?_
      · rfl
      · intro k _
        rfl
      · intro k hk
        exact if_neg hk
      · intro y hy
        have hself : ∀ z, (a.cache key z).stringCache key = some z := fun z => if_pos rfl
        rw [hself] at hy
        rw [← Option.some.inj hy, hempty]
        exact backed_gone hgone _

/-! ## The reads -/

theorem live_of_get {v : Text} (h : s.get t key = some v) : ∃ y, s.live t key = some y ∧ y.value = v := by
  unfold Server.get at h
  obtain ⟨y, hy, hv⟩ := Option.map_eq_some_iff.mp h
  exact ⟨y, hy, hv⟩

/-- A value read now and cached for some seconds. -/
theorem backed_read {c : Client} {value : Text} (hget : (c.server.get c.now key).getD [] = value) {n : Nat}
    (hlives : ∀ y, c.server.live c.now key = some y → (y.expiry = none ∨ LivesAsLong c key n)) :
    Backed c.server c.now key ⟨value, if 0 < n then c.time + n else 0⟩ := by
  cases hlive : c.server.live c.now key with
  | none =>
    have hempty : value = [] := by
      rw [get_gone hlive (le_refl _)] at hget
      exact hget.symm
    rw [hempty]
    exact backed_gone hlive _
  | some y =>
    have hvalue : y.value = value := by
      unfold Server.get at hget
      rw [hlive] at hget
      exact hget
    have hkey := (live_some hlive).1
    cases hy : y.expiry with
    | none =>
      have hkey' : c.server key = some ⟨value, none⟩ := by rw [hkey, ← hvalue, ← hy]
      exact backed_forever hkey' _
    | some e =>
      have hkey' : c.server key = some ⟨value, some e⟩ := by rw [hkey, ← hvalue, ← hy]
      rcases hlives y hlive with hno | hle
      · rw [hy] at hno
        cases hno
      · obtain ⟨hpos, he⟩ := hle y e hlive hy
        rw [if_pos hpos]
        exact backed_until hkey' hpos he

/-- The answer of the server to `get`. -/
def serverAnswer (c : Client) (key : Text) (rspLen : Nat) : Int × Text :=
  (if (c.server.get c.now key).isSome then 0 else -1,
    ((c.server.get c.now key).map (Client.snprintf · rspLen)).getD [])

theorem get_miss {c : Client} {key : Text} (h : (if isCacheable key then c.stringCache key else none) = none)
    (rspLen : Nat) (cacheIt : Bool) :
    c.get key reported rspLen cacheIt =
      (serverAnswer c key rspLen,
        if cacheIt || isCacheable key then
          c.addToCache key (serverAnswer c key rspLen).2 (ttlSecs (c.server.ttl c.now key reported))
        else c) := by
  unfold Client.get
  dsimp only
  rw [h]
  dsimp only
  split <;> rfl

theorem get_hit {c : Client} {key : Text} (hc : isCacheable key = true) {x : StringCache}
    (h : c.stringCache key = some x) (rspLen : Nat) (cacheIt : Bool) :
    c.get key reported rspLen cacheIt =
      if x.expired c.now then ((-1, []), c.uncache key)
      else ((if Client.snprintf x.value rspLen = [] then -1 else 0, Client.snprintf x.value rspLen), c) := by
  unfold Client.get
  dsimp only
  rw [hc, if_pos rfl, h]

theorem plain_miss (h : Sim a b) (key : Text) : (if isCacheable key then b.stringCache key else none) = none := by
  rw [h.plainCache key]
  exact ite_self none

theorem get_plain (h : Sim a b) (key : Text) (rspLen : Nat) (cacheIt : Bool) :
    b.get key reported rspLen cacheIt = (serverAnswer a key rspLen, b) := by
  have hanswer : serverAnswer b key rspLen = serverAnswer a key rspLen := by
    unfold serverAnswer
    rw [h.server, h.now]
  rw [get_miss reported (plain_miss h key), addToCache_plain h.plain, ite_self, hanswer]

theorem serverAnswer_gone {c : Client} (h : c.server.get c.now key = none) (rspLen : Nat) :
    serverAnswer c key rspLen = (-1, []) := by
  unfold serverAnswer
  rw [h]
  rfl

theorem serverAnswer_live {c : Client} {v : Text} (h : c.server.get c.now key = some v) (rspLen : Nat) :
    serverAnswer c key rspLen = (0, Client.snprintf v rspLen) := by
  unfold serverAnswer
  rw [h]
  rfl

theorem sim_get (h : Sim a b) (key : Text) (rspLen : Nat) (cacheIt : Bool)
    (hmiss : (isCacheable key = true → a.stringCache key = none) → (cacheIt || isCacheable key) = true →
      a.initializationCompleted = true → SafeMiss reported a key rspLen) :
    Sim (a.get key reported rspLen cacheIt).2 (b.get key reported rspLen cacheIt).2 := by
  rw [get_plain reported h]
  cases hfound : (if isCacheable key then a.stringCache key else none) with
  | some x =>
    have hc : isCacheable key = true := by
      by_contra hno
      rw [if_neg hno] at hfound
      cases hfound
    rw [if_pos hc] at hfound
    rw [get_hit reported hc hfound]
    split
    · exact sim_uncache h key
    · exact h
  | none =>
    rw [get_miss reported hfound]
    dsimp only
    split
    · rename_i hcaches
      have hfill := sim_addToCache h key (serverAnswer a key rspLen).2 (ttlSecs (a.server.ttl a.now key reported))
      rw [addToCache_plain h.plain] at hfill
      apply hfill
      intro hi
      have hnone : isCacheable key = true → a.stringCache key = none := by
        intro hc
        rw [if_pos hc] at hfound
        exact hfound
      obtain ⟨hfits, hlives⟩ := hmiss hnone hcaches hi
      refine backed_read ?_ (fun y _ => Or.inr hlives)
      cases hget : a.server.get a.now key with
      | none =>
        rw [serverAnswer_gone hget]
        rfl
      | some v =>
        rw [serverAnswer_live hget, hfits v hget]
        rfl
    · exact h

theorem answer_get (h : Sim a b) (key : Text) (rspLen : Nat) (cacheIt : Bool)
    (hhit : isCacheable key = true → SafeHit a key rspLen) :
    (a.get key reported rspLen cacheIt).1 = (b.get key reported rspLen cacheIt).1 := by
  rw [get_plain reported h]
  cases hfound : (if isCacheable key then a.stringCache key else none) with
  | none => rw [get_miss reported hfound]
  | some x =>
    have hc : isCacheable key = true := by
      by_contra hno
      rw [if_neg hno] at hfound
      cases hfound
    rw [if_pos hc] at hfound
    rw [get_hit reported hc hfound]
    dsimp only
    cases hget : a.server.get a.now key with
    | none =>
      rw [serverAnswer_gone hget]
      split
      · rfl
      · rename_i hvalid
        have hempty := h.honest key x hfound a.now (le_refl _) (Bool.eq_false_iff.mpr hvalid)
        rw [hget] at hempty
        have hnil : Client.snprintf x.value rspLen = [] := by
          rw [← hempty]
          exact List.take_nil
        rw [hnil]
        rfl
    | some v =>
      obtain ⟨hvalid, hne, hlen⟩ := hhit hc x v hfound hget
      have hvalue := h.honest key x hfound a.now (le_refl _) hvalid
      rw [hget] at hvalue
      rw [serverAnswer_live hget, hvalid]
      have hv : v = x.value := hvalue
      have hnil : Client.snprintf x.value rspLen ≠ [] := by
        rw [← hv]
        unfold Client.snprintf
        intro hnil
        rcases List.take_eq_nil_iff.mp hnil with h0 | h0
        · omega
        · exact hne h0
      rw [if_neg Bool.false_ne_true, if_neg hnil, hv]

theorem getWithAlloc_miss {c : Client} {key : Text} {cacheIt : Bool}
    (h : (if cacheIt || isCacheable key then c.stringCache key else none) = none) :
    c.getWithAlloc key cacheIt =
      (c.server.get c.now key,
        if cacheIt || isCacheable key then
          c.addToCache key ((c.server.get c.now key).getD []) (if (c.server.get c.now key).isSome then 60 else 10)
        else c) := by
  unfold Client.getWithAlloc
  dsimp only
  rw [h]
  dsimp only
  split
  · cases hget : c.server.get c.now key <;> rfl
  · rfl

theorem getWithAlloc_hit {c : Client} {key : Text} {cacheIt : Bool} (hc : (cacheIt || isCacheable key) = true)
    {x : StringCache} (h : c.stringCache key = some x) :
    c.getWithAlloc key cacheIt = (some x.value, if x.expired c.now then c.uncache key else c) := by
  unfold Client.getWithAlloc
  dsimp only
  rw [hc, if_pos rfl, h]

theorem getWithAlloc_plain (h : Sim a b) (key : Text) (cacheIt : Bool) :
    b.getWithAlloc key cacheIt = (a.server.get a.now key, b) := by
  have hmiss : (if cacheIt || isCacheable key then b.stringCache key else none) = none := by
    rw [h.plainCache key]
    exact ite_self none
  rw [getWithAlloc_miss hmiss, addToCache_plain h.plain, ite_self, h.server, h.now]

theorem sim_getWithAlloc (h : Sim a b) (key : Text) (cacheIt : Bool)
    (hmiss : (cacheIt || isCacheable key) = true → a.stringCache key = none → a.initializationCompleted = true →
      LivesAsLong a key 60) :
    Sim (a.getWithAlloc key cacheIt).2 (b.getWithAlloc key cacheIt).2 := by
  rw [getWithAlloc_plain h]
  cases hfound : (if cacheIt || isCacheable key then a.stringCache key else none) with
  | some x =>
    have hc : (cacheIt || isCacheable key) = true := by
      by_contra hno
      rw [if_neg hno] at hfound
      cases hfound
    rw [if_pos hc] at hfound
    rw [getWithAlloc_hit hc hfound]
    dsimp only
    split
    · exact sim_uncache h key
    · exact h
  | none =>
    rw [getWithAlloc_miss hfound]
    dsimp only
    split
    · rename_i hc
      rw [if_pos hc] at hfound
      have hfill := sim_addToCache h key ((a.server.get a.now key).getD [])
        (if (a.server.get a.now key).isSome then 60 else 10)
      rw [addToCache_plain h.plain] at hfill
      apply hfill
      intro hi
      refine backed_read rfl ?_
      intro y hy
      have hget : (a.server.get a.now key).isSome = true := by
        unfold Server.get
        rw [hy]
        rfl
      rw [if_pos hget]
      exact Or.inr (hmiss hc hfound hi)
    · exact h

theorem answer_getWithAlloc (h : Sim a b) (key : Text) (cacheIt : Bool)
    (hhit : (cacheIt || isCacheable key) = true → ∀ x, a.stringCache key = some x →
      (a.server.get a.now key).isSome = true ∧ (x.expired a.now = true → a.server.get a.now key = some x.value)) :
    (a.getWithAlloc key cacheIt).1 = (b.getWithAlloc key cacheIt).1 := by
  rw [getWithAlloc_plain h]
  cases hfound : (if cacheIt || isCacheable key then a.stringCache key else none) with
  | none => rw [getWithAlloc_miss hfound]
  | some x =>
    have hc : (cacheIt || isCacheable key) = true := by
      by_contra hno
      rw [if_neg hno] at hfound
      cases hfound
    rw [if_pos hc] at hfound
    rw [getWithAlloc_hit hc hfound]
    obtain ⟨hsome, hexpired⟩ := hhit hc x hfound
    cases hx : x.expired a.now with
    | true => exact (hexpired hx).symm
    | false =>
      have hvalue := h.honest key x hfound a.now (le_refl _) hx
      cases hget : a.server.get a.now key with
      | none =>
        rw [hget] at hsome
        cases hsome
      | some v =>
        rw [hget] at hvalue
        have hv : v = x.value := hvalue
        rw [hv]

/-! ## The defaults after a flush -/

/-- Until a read asks for more. -/
def OnlyCacheable (c : Client) : Prop := ∀ key, isCacheable key = false → c.stringCache key = none

theorem onlyCacheable_setLocked {c : Client} (h : OnlyCacheable c) (key : Text) (useNx : Bool) (value : Text)
    (n : UInt32) : OnlyCacheable (c.setLocked key useNx value n) := by
  intro k hk
  rw [setLocked_eq]
  dsimp only
  split
  · rename_i hc
    have hne : k ≠ key := by
      intro heq
      rw [heq, hc] at hk
      cases hk
    unfold Client.addToCache
    split
    · exact (if_neg hne).trans (h k hk)
    · exact h k hk
  · exact h k hk

theorem onlyCacheable_set {c : Client} (h : OnlyCacheable c) (key : Text) (useNx : Bool) (value : Text) (n : UInt32) :
    OnlyCacheable (c.set key useNx value n) := by
  have hlocked := onlyCacheable_setLocked h key useNx value n
  unfold Client.set Client.checkDumpable
  dsimp only
  split
  · split
    · exact onlyCacheable_setLocked hlocked PREFS_CHANGED false _ 0
    · exact hlocked
  · exact hlocked

theorem fresh_set (h : Sim a b ∧ OnlyCacheable a) (key value : Text) (n : UInt32) (hn : n.toNat < 2 ^ 31) :
    Sim (a.set key false value n) (b.set key false value n) ∧ OnlyCacheable (a.set key false value n) := by
  refine ⟨sim_set h.1 key false value n (fun _ _ => ⟨hn, fun hnx => by cases hnx⟩) (h.2 key), ?_⟩
  exact onlyCacheable_set h.2 key false value n

theorem fresh_setDefaultAdmin (h : Sim a b ∧ OnlyCacheable a) :
    Sim a.setDefaultAdmin b.setDefaultAdmin ∧ OnlyCacheable a.setDefaultAdmin := by
  unfold Client.setDefaultAdmin
  have h1 := fresh_set h "ntopng.user.admin.password".toList Client.adminMd5 0 (by decide)
  have h2 := fresh_set h1 "ntopng.user.admin.full_name".toList "ntopng Administrator".toList 0 (by decide)
  have h3 := fresh_set h2 "ntopng.user.admin.group".toList "administrator".toList 0 (by decide)
  exact fresh_set h3 "ntopng.user.admin.allowed_nets".toList "0.0.0.0/0,::/0".toList 0 (by decide)

theorem fresh_setDefaultAddresses (h : Sim a b ∧ OnlyCacheable a) :
    Sim a.setDefaultAddresses b.setDefaultAddresses ∧ OnlyCacheable a.setDefaultAddresses := by
  unfold Client.setDefaultAddresses Client.setResolvedAddress
  have h1 := fresh_set h ("ntopng.dns.cache.".toList ++ "127.0.0.1".toList) "localhost".toList 3600 (by decide)
  have h2 := fresh_set h1 ("ntopng.dns.cache.".toList ++ "::1".toList) "localhostV6".toList 3600 (by decide)
  have h3 := fresh_set h2 ("ntopng.dns.cache.".toList ++ "255.255.255.255".toList) "Broadcast".toList 3600 (by decide)
  exact fresh_set h3 ("ntopng.dns.cache.".toList ++ "0.0.0.0".toList) "NoIP".toList 3600 (by decide)

theorem fresh_setDefaults (h : Sim a b ∧ OnlyCacheable a) : Sim (a.setDefaults reported) (b.setDefaults reported) := by
  have h4 := fresh_setDefaultAddresses h
  unfold Client.setDefaults
  dsimp only
  generalize a.setDefaultAddresses = a4 at h4
  generalize b.setDefaultAddresses = b4 at h4
  -- The password is not cacheable: both clients ask the server.
  have hno : isCacheable "ntopng.user.admin.password".toList = false := by decide
  have hget : a4.get "ntopng.user.admin.password".toList reported Client.CONST_MAX_LEN_REDIS_VALUE false =
      (serverAnswer a4 "ntopng.user.admin.password".toList Client.CONST_MAX_LEN_REDIS_VALUE, a4) := by
    rw [get_miss reported (by rw [hno]; rfl), hno]
    rfl
  rw [get_plain reported h4.1, hget]
  dsimp only
  generalize serverAnswer a4 "ntopng.user.admin.password".toList Client.CONST_MAX_LEN_REDIS_VALUE = r
  by_cases hrc : r.1 < 0
  · rw [if_pos hrc, if_pos hrc]
    exact (fresh_setDefaultAdmin h4).1
  rw [if_neg hrc, if_neg hrc]
  by_cases hadmin : Client.adminMd5.isPrefixOf r.2 = true
  · rw [if_pos hadmin, if_pos hadmin]
    exact h4.1
  · rw [if_neg hadmin, if_neg hadmin]
    exact (fresh_set h4 CONST_DEFAULT_PASSWORD_CHANGED "1".toList 0 (by decide)).1

theorem sim_flushDb (h : Sim a b) : Sim (a.flushDb reported) (b.flushDb reported) := by
  unfold Client.flushDb
  apply fresh_setDefaults
  refine ⟨⟨h.caching, h.plain, fun _ => rfl, h.now, h.initializationCompleted, rfl, fun _ _ => rfl, ?_⟩, fun _ _ => rfl⟩
  intro key x hx
  cases hx

/-! ## Runs -/

theorem sim_step (h : Sim a b) (e : Ev) (hsafe : Safe reported a e) : Sim (step reported a e) (step reported b e) := by
  cases e with
  | tick ms =>
    refine ⟨h.caching, h.plain, h.plainCache, ?_, h.initializationCompleted, h.server, h.uninitialized, ?_⟩
    · exact congrArg (· + ms) h.now
    · exact fun key x hx => backed_later (Nat.le_add_right ..) (h.honest key x hx)
  | setInitializationComplete =>
    exact ⟨h.caching, h.plain, h.plainCache, h.now, rfl, h.server, (fun hi => by cases hi), h.honest⟩
  | set key value n =>
    apply sim_set h key false value n
    · intro hc hi
      have hn : isCacheable key = true → a.initializationCompleted = true → n.toNat < 2 ^ 31 := by
        intro hc
        unfold Safe at hsafe
        dsimp only at hsafe
        rw [if_pos hc] at hsafe
        exact hsafe
      exact ⟨hn hc hi, fun hnx => by cases hnx⟩
    · intro hc
      unfold Safe at hsafe
      dsimp only at hsafe
      rw [hc, if_neg Bool.false_ne_true] at hsafe
      exact hsafe
  | setnx key value n =>
    apply sim_set h key true value n
    · intro hc hi
      unfold Safe at hsafe
      dsimp only at hsafe
      rw [if_pos hc] at hsafe
      obtain ⟨hgone, hpos, hn⟩ := hsafe hi
      exact ⟨hn, fun _ => ⟨hgone, hpos⟩⟩
    · intro hc
      unfold Safe at hsafe
      dsimp only at hsafe
      rw [hc, if_neg Bool.false_ne_true] at hsafe
      exact hsafe
  | get key rspLen cacheIt => exact sim_get reported h key rspLen cacheIt hsafe.2
  | getWithAlloc key cacheIt => exact sim_getWithAlloc h key cacheIt fun hc => (hsafe hc).2
  | getset key value n => exact sim_getset h key value n hsafe
  | del key => exact sim_del h key
  | rename key newKey => exact sim_rename h key newKey hsafe
  | expire key n => exact sim_expire h key n hsafe
  | flushDb => exact sim_flushDb reported h

theorem answer_step (h : Sim a b) (e : Ev) (hsafe : Safe reported a e) : answer reported a e = answer reported b e := by
  cases e with
  | get key rspLen cacheIt =>
    unfold answer
    dsimp only
    rw [answer_get reported h key rspLen cacheIt hsafe.1]
  | getWithAlloc key cacheIt =>
    unfold answer
    dsimp only
    rw [answer_getWithAlloc h key cacheIt fun hc => (hsafe hc).1]
  | getset key value n =>
    unfold answer Client.getset
    dsimp only
    rw [h.server, h.now]
  | rename key newKey =>
    unfold answer Client.rename
    dsimp only
    rw [h.server, h.now]
  | tick => rfl
  | setInitializationComplete => rfl
  | set => rfl
  | setnx => rfl
  | del => rfl
  | expire => rfl
  | flushDb => rfl

theorem sim_init (now : Nat) (server : Server) : Sim (Client.init true now server) (Client.init false now server) where
  caching := rfl
  plain := rfl
  plainCache _ := rfl
  now := rfl
  initializationCompleted := rfl
  server := rfl
  uninitialized _ _ := rfl
  honest key x hx := by cases hx

/-- In every run of safe calls nobody can tell that there is a cache. -/
theorem transparent_of_safe (now : Nat) (server : Server) (es : List Ev)
    (hsafe : Along (Twins.step reported) (fun t e => Safe reported t.cached e) (Twins.init now server) es) :
    Transparent reported now server es := by
  have hstep : ∀ (t : Twins) (e : Ev), Sim t.cached t.plain → Safe reported t.cached e →
      Sim (t.step reported e).cached (t.step reported e).plain := fun t e h hs => sim_step reported h e hs
  constructor
  · exact along_of_inv (Twins.step reported) hstep (fun t e h hs => answer_step reported h e hs) (sim_init now server) hsafe
  · exact always_of_inv (Twins.step reported) hstep (fun t h => ⟨h.server.symm, h.honest⟩) (sim_init now server) hsafe

/-- A preference that is set and read in a buffer with room for it. -/
theorem transparent_set_get :
    Transparent (· / 1000) 0 (fun _ => none)
      [.setInitializationComplete, .set "ntopng.prefs.a".toList "1".toList 0,
        .get "ntopng.prefs.a".toList 8 false] := by
  apply transparent_of_safe
  refine ⟨trivial, ?_, ?_, trivial⟩
  · intro _
    decide
  · constructor
    · intro _ x s hx hs
      have hx' : some x = some ⟨"1".toList, 0⟩ := hx.symm
      have hs' : some s = some "1".toList := hs.symm
      rw [Option.some.inj hx', Option.some.inj hs']
      decide
    · intro hnone
      exact absurd (hnone (by decide)) (by decide)

/-- `expire` stops at the cache: the server keeps the preference, and the entry is served after its time. -/
theorem not_transparent : ¬ ∀ reported now server es, Transparent reported now server es := by
  intro h
  obtain ⟨hanswers, -⟩ := h (· / 1000) 0 (fun _ => none)
    [.setInitializationComplete, .set "ntopng.prefs.a".toList "1".toList 0, .expire "ntopng.prefs.a".toList 5,
      .tick 10000, .getWithAlloc "ntopng.prefs.a".toList false]
  obtain ⟨-, -, -, -, hread, -⟩ := hanswers
  exact absurd hread (by decide)

end Ntopng.Redis
