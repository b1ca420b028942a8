/-
  Ntopng.Addresses.Tags — host tags by serialization key (src/TagsConfiguration.cpp,
  src/VLANAddressTree.cpp; `Utils::parseMac`, `Utils::formatMacAddress`, src/Utils.cpp;
  `MAC_SERIALIZED_SHORT_KEY`, `HOST_SERIALIZED_SHORT_KEY`, include/ntop_defines.h).

  A bitmap of 64 tags is kept for each MAC and each address of a VLAN: in a table of
  address trees, one for each VLAN, and in redis under a key of its own, from which the
  trees are filled again at startup. Keys are text, `<ifid>_<mac>` or `<ifid>_<ip>@<vlan>`;
  the text of a MAC may end in `_v4` or `_v6`, which is ignored where it is parsed. A MAC
  goes into the tree of VLAN 0.

  Redis is the table of its entries. `KEYS` lists the matching keys in no order that could
  be relied on. Locks are left out, and so is the cache of redis in front of the table.
-/

import Ntopng.Addresses.Restore
import Ntopng.Lib.LastWrite

namespace Ntopng.Addresses.Tags

open Ntopng.Lib.Prefixes

/-! ## Trees by VLAN -/

def maxNumVlan : Nat := 4096

structure VLANAddressTree (E : Env) where
  tree : Nat → Option (AddressTree E)
  numAddresses : UInt32

/-- The twelve bits of a VLAN. -/
def vlanIndex (vlanId : UInt16) : Nat := (vlanId &&& 0xFFF).toNat

namespace VLANAddressTree

variable {E : Env}

def empty : VLANAddressTree E := ⟨fun _ => none, 0⟩

variable (t : VLANAddressTree E)

def getOrCreate (i : Nat) : AddressTree E := (t.tree i).getD (.init true)

/-- Whether the address could be added; `none` is the fault of the tree. -/
def addAddress (vlanId : UInt16) (net : List Char) (userData : Int64) : Option (Bool × VLANAddressTree E) :=
  let i := vlanIndex vlanId
  ((t.getOrCreate i).addAddress net userData).map fun r =>
    (r.1, ⟨Function.update t.tree i (some r.2), t.numAddresses + 1⟩)

def findAddress (vlanId : UInt16) (f : Family) (addr : List Bool) : Int64 :=
  match t.tree (vlanIndex vlanId) with
  | some a => (a.findAddress f addr).1
  | none => -1

def findMac (vlanId : UInt16) (addr : List UInt8) : Int64 :=
  match t.tree (vlanIndex vlanId) with
  | some a => a.findMac addr
  | none => -1

end VLANAddressTree

/-! ## Text -/

/-- What follows the first `c`. -/
def after (c : Char) (s : List Char) : Option (List Char) := (s.dropWhile (· ≠ c)).tail?

def before (c : Char) (s : List Char) : List Char := s.takeWhile (· ≠ c)

/-- A `0x` in front of a digit is skipped. -/
def skipHex (s : List Char) : List Char :=
  match s with
  | '0' :: x :: c :: r => if (x = 'x' ∨ x = 'X') ∧ (digit 16 c).isSome then c :: r else s
  | _ => s

/-- `strtoul` in base 16 or `strtoull` in base 10: the value, and what follows the digits, if there is one. -/
def strtoul (base : Nat) (s : List Char) : Option (Nat × List Char) :=
  let (negative, _, s) := sign (skipSpaces s)
  let s := if base = 16 then skipHex s else s
  let (n, v, rest) := digits base s.length 0 0 s
  if n = 0 then none
  else some (clampULong negative v, rest)

def strtoull (s : List Char) : UInt64 := ((strtoul 10 s).map fun r => UInt64.ofNat r.1).getD 0

/-- The bytes from here on, `n` of them; those that are not reached are 0. -/
def parseMacLoop : (n : Nat) → List Char → List UInt8
  | 0, _ => []
  | n + 1, s =>
    match strtoul 16 s with
    | none => List.replicate (n + 1) 0
    | some (v, rest) =>
      UInt8.ofNat v :: match rest with
        | ':' :: rest => parseMacLoop n rest
        | _ => List.replicate n 0

def parseMac (symMac : List Char) : List UInt8 := parseMacLoop 6 symMac

/-- `(u_int16_t)atoi(s)`. -/
def atoi16 (s : List Char) : UInt16 := UInt16.ofNat (atoi s % 2 ^ 16).toNat

/-! ## Redis -/

abbrev Redis := List Char → Option (List Char)

def bitmapPrefix : List Char := "ntopng.prefs.host_tags_bitmap.".toList

def decimal (n : Nat) : List Char := Nat.toDigits 10 n

/-- `CONST_MAX_LEN_REDIS_KEY` is 256. -/
def redisKey (key : List Char) : List Char := (bitmapPrefix ++ key).take 255

def storeToRedis (r : Redis) (key : List Char) (bitmap : UInt64) : Redis :=
  if bitmap = 0 then Function.update r (redisKey key) none
  else Function.update r (redisKey key) (some (decimal bitmap.toNat))

/-- The pattern, without the `*` it ends in. -/
def keysPattern (ifaceId : Nat) : List Char := bitmapPrefix ++ decimal ifaceId ++ ['_']

/-- An answer of `KEYS`: every key that matches, once. -/
structure KeysAnswer (r : Redis) (ifaceId : Nat) (keys : List (List Char)) : Prop where
  nodup : keys.Nodup
  mem_iff : ∀ k, k ∈ keys ↔ (r k).isSome ∧ keysPattern ifaceId <+: k

/-! ## The configuration -/

variable {E : Env}

def addToTree (t : VLANAddressTree E) (key : List Char) (bitmap : UInt64) : Option (VLANAddressTree E) :=
  match after '_' key with
  | none => some t
  | some addrPart =>
    match after '@' addrPart with
    | none => (t.addAddress 0 addrPart bitmap.toInt64).map Prod.snd
    | some vlan =>
      let ipBuf := before '@' addrPart
      if ipBuf.length ≥ 64 then some t
      else (t.addAddress (atoi16 vlan) ipBuf bitmap.toInt64).map Prod.snd

structure State (E : Env) where
  tree : VLANAddressTree E
  redis : Redis

def setTags (s : State E) (key : List Char) (bitmap : UInt64) : Option (State E) :=
  if key = [] then some s
  else (addToTree s.tree key bitmap).map fun t => ⟨t, storeToRedis s.redis key bitmap⟩

/-- One key of the answer. -/
def loadKey (r : Redis) (t : VLANAddressTree E) (key : List Char) : Option (VLANAddressTree E) :=
  match r key with
  | none => some t
  | some val =>
    let bitmap := strtoull (val.take 31)
    if bitmap ≠ 0 then addToTree t (key.drop bitmapPrefix.length) bitmap else some t

/-- `loadFromRedis`, on the keys in the order they come. -/
def loadFromRedis (r : Redis) : List (List Char) → VLANAddressTree E → Option (VLANAddressTree E)
  | [], t => some t
  | key :: keys, t => (loadKey r t key).bind (loadFromRedis r keys)

def tagsOf (val : Int64) : UInt64 := if val = -1 then 0 else val.toUInt64

/-- By serialization key. -/
def getTags (t : VLANAddressTree E) (key : List Char) : UInt64 :=
  match after '_' key with
  | none => 0
  | some addrPart =>
    match after '@' addrPart with
    | none => tagsOf (t.findMac 0 (parseMac addrPart))
    | some vlan =>
      let ipBuf := before '@' addrPart
      if ipBuf.length ≥ 64 then 0
      else if '.' ∈ ipBuf then
        match E.inetPton4 ipBuf with
        | none => 0
        | some a => tagsOf (t.findAddress (atoi16 vlan) .inet a.val)
      else
        match E.inetPton6 ipBuf with
        | none => 0
        | some a => tagsOf (t.findAddress (atoi16 vlan) .inet6 a.val)

def getTagsMac (t : VLANAddressTree E) (mac : List UInt8) : UInt64 := tagsOf (t.findMac 0 mac)

def getTagsIp (t : VLANAddressTree E) (ip : IpAddress) (vlanId : UInt16) : UInt64 :=
  tagsOf (t.findAddress vlanId ip.family ip.bits)

/-! ## Keys -/

deriving instance DecidableEq for IpAddress

abbrev MacAddress := { l : List UInt8 // l.length = 6 }

abbrev VlanId := { v : UInt16 // v.toNat < maxNumVlan }

/-- What tags are kept for. -/
inductive Target where
  | mac (m : MacAddress)
  | ip (a : IpAddress) (vlan : VlanId)
  deriving DecidableEq

inductive Suffix where
  | none
  | v4
  | v6
  deriving DecidableEq

def Suffix.text : Suffix → List Char
  | .none => []
  | .v4 => ['_', 'v', '4']
  | .v6 => ['_', 'v', '6']

inductive Key where
  | mac (m : MacAddress) (suffix : Suffix)
  | ip (a : IpAddress) (vlan : VlanId)
  deriving DecidableEq

def Key.target : Key → Target
  | .mac m _ => .mac m
  | .ip a vlan => .ip a vlan

def hexDigit (n : Nat) : Char := "0123456789ABCDEF".toList.getD n '0'

/-- `%02X`. -/
def hexByte (b : UInt8) : List Char := [hexDigit (b.toNat / 16), hexDigit (b.toNat % 16)]

/-- `formatMacAddress`. -/
def formatMac : List UInt8 → List Char
  | [] => []
  | [b] => hexByte b
  | b :: l => hexByte b ++ ':' :: formatMac l

def ipText (E : Env) : IpAddress → List Char
  | .v4 a => intoaV4 a.val
  | .v6 a => E.inetNtop6 a.val

/-- What stands behind `<ifid>_`. -/
def Key.addrPart (E : Env) : Key → List Char
  | .mac m suffix => formatMac m.val ++ suffix.text
  | .ip a vlan => ipText E a ++ '@' :: decimal vlan.val.toNat

def Key.text (E : Env) (ifaceId : Nat) (k : Key) : List Char := decimal ifaceId ++ '_' :: k.addrPart E

/-- Calls of `setTags`, one after the other. -/
def run (ifaceId : Nat) : List (Key × UInt64) → State E → Option (State E)
  | [], s => some s
  | e :: es, s => (setTags s (e.1.text E ifaceId) e.2).bind (run ifaceId es)

/-- What the C library does with the text of addresses. -/
structure TextOk (E : Env) : Prop where
  pton4 : ∀ a : Bits 32, E.inetPton4 (intoaV4 a.val) = some a
  pton4_colon : ∀ s, ':' ∈ s → E.inetPton4 s = none
  pton6 : ∀ a : Bits 128, E.inetPton6 (E.inetNtop6 a.val) = some a
  ntop6_colon : ∀ a : Bits 128, ':' ∈ E.inetNtop6 a.val
  ntop6_length : ∀ a : Bits 128, (E.inetNtop6 a.val).length ≤ 45
  ntop6_chars : ∀ a : Bits 128, ∀ c ∈ E.inetNtop6 a.val, c = ':' ∨ c = '.' ∨ (digit 16 c).isSome

end Ntopng.Addresses.Tags
