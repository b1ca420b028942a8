/-
  Ntopng.Redis.Cache — the string cache in front of the Redis server (src/Redis.cpp).

  The preferences, the users (not their passwords) and the keys under ntopng.cache are
  cacheable: `get` and `getWithAlloc` answer them from a map when they are in it. The map is
  filled by `set` and by both reads, each with an expiry of its own; `del` and `flushDb` take
  from it, `getset` and `rename` do not know it, and `expire` stops at it.

  The server is a store of strings with an expiry each, in milliseconds; the process sees
  seconds (`time(NULL)`). Only this client writes to it. `caching := false` is the same client
  without the map.
-/

import Ntopng.Lib.Run

namespace Ntopng.Redis

open Ntopng.Lib.Run

abbrev Text := List Char

/-! ## The server -/

structure Stored where
  value : Text
  /-- In milliseconds. -/
  expiry : Option Nat
  deriving DecidableEq, Repr

abbrev Server := Text → Option Stored

namespace Server

variable (s : Server) (now : Nat) (key : Text)

def live : Option Stored := (s key).filter fun x => x.expiry.all (now < ·)

def get : Option Text := (s.live now key).map (·.value)

def put (x : Option Stored) : Server := fun k => if k = key then x else s k

/-- Nothing changes if the seconds are not positive: the server refuses the command. -/
def setEx (value : Text) (secs : Int) : Server :=
  if 0 < secs then s.put key (some ⟨value, some (now + 1000 * secs.toNat)⟩) else s

def setNxEx (value : Text) (secs : Int) : Server :=
  if (s.live now key).isNone then s.setEx now key value secs else s

/-- With 0 seconds the key goes at once. -/
def expire (secs : Nat) : Server :=
  match s.live now key with
  | some x => s.put key (if 0 < secs then some ⟨x.value, some (now + 1000 * secs)⟩ else none)
  | none => s

def getset (value : Text) : Server := s.put key (some ⟨value, none⟩)

/-- The server refuses to rename a key that it does not have. -/
def rename (newKey : Text) : Server :=
  match s.live now key with
  | some x => (s.put key none).put newKey (some x)
  | none => s

/-- The answer to TTL: `reported` is how the server rounds milliseconds. -/
def ttl (reported : Nat → Nat) : Int :=
  match s.live now key with
  | some ⟨_, some e⟩ => reported (e - now)
  | some ⟨_, none⟩ => -1
  | none => -2

end Server

/-! ## The client -/

structure StringCache where
  value : Text
  /-- In seconds; 0 is never. -/
  expire : Nat
  deriving DecidableEq, Repr

def StringCache.expired (c : StringCache) (now : Nat) : Bool := decide (0 < c.expire) && decide (c.expire ≤ now / 1000)

structure Client where
  caching : Bool
  initializationCompleted : Bool
  /-- In milliseconds. -/
  now : Nat
  server : Server
  stringCache : Text → Option StringCache

def strstr (text part : Text) : Bool := decide (part <:+: text)

def isCacheable (key : Text) : Bool :=
  strstr key "ntopng.cache.".toList || strstr key "ntopng.prefs.".toList
    || (strstr key "ntopng.user.".toList && !strstr key ".password".toList)

def PREFS_CHANGED : Text := "ntopng.cache.prefs_changed".toList

def CONST_DEFAULT_PASSWORD_CHANGED : Text := "ntopng.prefs.admin_password_changed".toList

/-- `%d` of an `u_int`. -/
def printedSigned (n : UInt32) : Int := if n.toNat < 2 ^ 31 then n.toNat else n.toNat - 2 ^ 32

/-- The `u_int` that a TTL becomes if it is not negative as an `int32_t`, else 0. -/
def ttlSecs (ttl : Int) : Nat := if ttl.emod (2 ^ 32) < 2 ^ 31 then (ttl.emod (2 ^ 32)).toNat else 0

namespace Client

variable (c : Client) (key : Text)

def time : Nat := c.now / 1000

def uncache : Client := { c with stringCache := fun k => if k = key then none else c.stringCache k }

def cache (x : StringCache) : Client :=
  { c with stringCache := fun k => if k = key then some x else c.stringCache k }

def addToCache (value : Text) (expireSecs : Nat) : Client :=
  if c.caching && c.initializationCompleted then
    c.cache key ⟨value, if 0 < expireSecs then c.time + expireSecs else 0⟩
  else c

def expireCache (expireSecs : UInt32) : Option Client :=
  (c.stringCache key).map fun x =>
    c.cache key { x with expire := if 0 < expireSecs.toNat then c.time + expireSecs.toNat else 0 }

/-- `_set` but for the last call. -/
def setLocked (useNx : Bool) (value : Text) (expireSecs : UInt32) : Client :=
  let c := if isCacheable key then c.addToCache key value expireSecs.toNat else c
  { c with server :=
      if useNx then c.server.setNxEx c.now key value (printedSigned expireSecs)
      else if 0 < expireSecs.toNat then c.server.setEx c.now key value (printedSigned expireSecs)
      else c.server.put key (some ⟨value, none⟩) }

def dumpable (key : Text) : Bool := "ntopng.prefs.".toList.isPrefixOf key || "ntopng.user.".toList.isPrefixOf key

/-- The key that it sets is not dumpable itself. -/
def checkDumpable : Client :=
  if c.initializationCompleted && dumpable key then c.setLocked PREFS_CHANGED false "1".toList 0 else c

def set (useNx : Bool) (value : Text) (expireSecs : UInt32) : Client :=
  let c := c.setLocked key useNx value expireSecs
  if expireSecs.toNat = 0 then c.checkDumpable key else c

/-- What `snprintf` leaves of a text in a buffer. -/
def snprintf (text : Text) (len : Nat) : Text := text.take (len - 1)

def get (reported : Nat → Nat) (rspLen : Nat) (cacheIt : Bool) : (Int × Text) × Client :=
  let cacheable := isCacheable key
  match if cacheable then c.stringCache key else none with
  | some x =>
    if x.expired c.now then ((-1, []), c.uncache key)
    else
      let rsp := snprintf x.value rspLen
      ((if rsp = [] then -1 else 0, rsp), c)
  | none =>
    let reply := c.server.get c.now key
    let rsp := (reply.map (snprintf · rspLen)).getD []
    let rc := if reply.isSome then 0 else -1
    if cacheIt || cacheable then
      ((rc, rsp), c.addToCache key rsp (ttlSecs (c.server.ttl c.now key reported)))
    else ((rc, rsp), c)

def getWithAlloc (cacheIt : Bool) : Option Text × Client :=
  let cacheable := cacheIt || isCacheable key
  match if cacheable then c.stringCache key else none with
  | some x => (some x.value, if x.expired c.now then c.uncache key else c)
  | none =>
    let rsp := c.server.get c.now key
    if cacheable then
      match rsp with
      | some v => (rsp, c.addToCache key v 60)
      | none => (rsp, c.addToCache key [] 10)
    else (rsp, c)

def getset (value : Text) (expireSecs : UInt32) : Option Text × Client :=
  let server := c.server.getset key value
  let server := if 0 < expireSecs.toNat then server.expire c.now key expireSecs.toNat else server
  (c.server.get c.now key, { c with server := server })

def del : Client := { c.uncache key with server := c.server.put key none }.checkDumpable key

def rename (newKey : Text) : Int × Client :=
  (if (c.server.live c.now key).isSome then 0 else -1, { c with server := c.server.rename c.now key newKey })

def expire (expireSecs : UInt32) : Client :=
  match c.expireCache key expireSecs with
  | some c => c
  | none => { c with server := c.server.expire c.now key expireSecs.toNat }

/-- For one address. -/
def setResolvedAddress (numericIp symbolicIp : Text) : Client :=
  c.set ("ntopng.dns.cache.".toList ++ numericIp) false symbolicIp 3600

def adminMd5 : Text := "21232f297a57a5a743894a0e4a801fc3".toList

def CONST_MAX_LEN_REDIS_VALUE : Nat := 131052

def setDefaultAdmin : Client :=
  let c := c.set "ntopng.user.admin.password".toList false adminMd5 0
  let c := c.set "ntopng.user.admin.full_name".toList false "ntopng Administrator".toList 0
  let c := c.set "ntopng.user.admin.group".toList false "administrator".toList 0
  c.set "ntopng.user.admin.allowed_nets".toList false "0.0.0.0/0,::/0".toList 0

def setDefaultAddresses : Client :=
  let c := c.setResolvedAddress "127.0.0.1".toList "localhost".toList
  let c := c.setResolvedAddress "::1".toList "localhostV6".toList
  let c := c.setResolvedAddress "255.255.255.255".toList "Broadcast".toList
  c.setResolvedAddress "0.0.0.0".toList "NoIP".toList

def setDefaults (reported : Nat → Nat) : Client :=
  let c := c.setDefaultAddresses
  let (r, c) := c.get "ntopng.user.admin.password".toList reported CONST_MAX_LEN_REDIS_VALUE false
  if r.1 < 0 then c.setDefaultAdmin
  else if adminMd5.isPrefixOf r.2 then c
  else c.set CONST_DEFAULT_PASSWORD_CHANGED false "1".toList 0

def flushDb (reported : Nat → Nat) : Client :=
  { c with server := fun _ => none, stringCache := fun _ => none }.setDefaults reported

/-- At the start the server may hold anything. -/
def init (caching : Bool) (now : Nat) (server : Server) : Client where
  caching := caching
  initializationCompleted := false
  now := now
  server := server
  stringCache := fun _ => none

end Client

/-! ## Runs -/

inductive Ev where
  | tick (ms : Nat)
  | setInitializationComplete
  | set (key value : Text) (expireSecs : UInt32)
  | setnx (key value : Text) (expireSecs : UInt32)
  | get (key : Text) (rspLen : Nat) (cacheIt : Bool)
  | getWithAlloc (key : Text) (cacheIt : Bool)
  | getset (key value : Text) (expireSecs : UInt32)
  | del (key : Text)
  | rename (key newKey : Text)
  | expire (key : Text) (expireSecs : UInt32)
  | flushDb
  deriving DecidableEq, Repr

/-- What the caller gets. -/
inductive Answer where
  | none
  | rc (rc : Int)
  | text (rc : Int) (rsp : Text)
  | alloc (rsp : Option Text)
  deriving DecidableEq, Repr

variable (reported : Nat → Nat)

def answer (c : Client) : Ev → Answer
  | .tick _ | .setInitializationComplete => .none
  | .get key rspLen cacheIt => .text (c.get key reported rspLen cacheIt).1.1 (c.get key reported rspLen cacheIt).1.2
  | .getWithAlloc key cacheIt => .alloc (c.getWithAlloc key cacheIt).1
  | .getset key value expireSecs => .alloc (c.getset key value expireSecs).1
  | .rename key newKey => .rc (c.rename key newKey).1
  | .set .. | .setnx .. | .del _ | .expire .. | .flushDb => .rc 0

def step (c : Client) : Ev → Client
  | .tick ms => { c with now := c.now + ms }
  | .setInitializationComplete => { c with initializationCompleted := true }
  | .set key value expireSecs => c.set key false value expireSecs
  | .setnx key value expireSecs => c.set key true value expireSecs
  | .get key rspLen cacheIt => (c.get key reported rspLen cacheIt).2
  | .getWithAlloc key cacheIt => (c.getWithAlloc key cacheIt).2
  | .getset key value expireSecs => (c.getset key value expireSecs).2
  | .del key => c.del key
  | .rename key newKey => (c.rename key newKey).2
  | .expire key expireSecs => c.expire key expireSecs
  | .flushDb => c.flushDb reported

end Ntopng.Redis
