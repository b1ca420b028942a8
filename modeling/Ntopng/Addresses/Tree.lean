/-
  Ntopng.Addresses.Tree — sets of networks and MAC addresses, and the text they are saved as
  (src/AddressTree.cpp, src/Utils.cpp, src/BroadcastDomains.cpp).

  An address tree holds two prefix trees and a map of MAC addresses, each entry with a
  number. `serialize` writes it as a JSON document into a buffer of the caller; `deserialize`
  reads it back through the textual `addAddress`.

  What is not in the repository is a parameter (`Env`): the prefix trees, the serializer that
  writes the document, the conversions of addresses, and whether a lookup in no tree answers
  NULL or is a fault. The JSON parser is one as well. `none` as the result of an operation is
  a fault: a prefix that was never filled, or a tree that is not there.
-/

import Ntopng.Lib.CNumber
import Ntopng.Lib.Prefixes

namespace Ntopng.Addresses

open Ntopng.Lib.Prefixes
open Ntopng.Lib.CString (isspace)
open Ntopng.Lib.CNumber (clampLong)

inductive Family where
  | inet
  | inet6
  | mac
  deriving DecidableEq, Repr

abbrev Bits (n : Nat) := { l : List Bool // l.length = n }

inductive IpAddress where
  | v4 (a : Bits 32)
  | v6 (a : Bits 128)

namespace IpAddress

def family : IpAddress → Family
  | .v4 _ => .inet
  | .v6 _ => .inet6

def bits : IpAddress → List Bool
  | .v4 a => a.val
  | .v6 a => a.val

def width : IpAddress → Nat
  | .v4 _ => 32
  | .v6 _ => 128

end IpAddress

/-- What `serialize` writes and `deserialize` looks for. In a list of the serializer the keys are not written. -/
structure Doc where
  ip : Option (List (List Char × Int))
  mac : Option (List (List Char))
  deriving DecidableEq

structure Env where
  P : Patricia Family
  /-- A lookup in no tree answers NULL. -/
  nullOk : Bool
  inetPton4 : List Char → Option (Bits 32)
  inetPton6 : List Char → Option (Bits 128)
  inetNtop6 : List Bool → List Char
  /-- `none` when the serializer cannot be initialised. -/
  write : Doc → Option (List Char)
  parse : List Char → Option Doc

/-! ## Text -/

def byteBits (b : Nat) : List Bool := (List.range 8).map fun i => b.testBit (7 - i)

def bitsNat (l : List Bool) : Nat := l.foldl (fun n b => 2 * n + b.toNat) 0

def skipSpaces (s : List Char) : List Char := s.dropWhile isspace

def digit (base : Nat) (c : Char) : Option Nat :=
  let d :=
    if '0' ≤ c ∧ c ≤ '9' then c.toNat - '0'.toNat
    else if 'a' ≤ c ∧ c ≤ 'f' then c.toNat - 'a'.toNat + 10
    else if 'A' ≤ c ∧ c ≤ 'F' then c.toNat - 'A'.toNat + 10
    else base
  if d < base then some d else none

/-- Digits, at most `width` of them: how many there were, their value, and what follows. -/
def digits (base : Nat) : (width : Nat) → (n v : Nat) → List Char → Nat × Nat × List Char
  | width + 1, n, v, c :: s =>
    match digit base c with
    | some d => digits base width (n + 1) (v * base + d) s
    | none => (n, v, c :: s)
  | _, n, v, s => (n, v, s)

/-- An optional sign: whether it is a minus, and the characters it took. -/
def sign : List Char → Bool × Nat × List Char
  | '-' :: s => (true, 1, s)
  | '+' :: s => (false, 1, s)
  | s => (false, 0, s)

/-- What an `unsigned long` keeps of a number; one that is too large is the largest, also after a minus. -/
def clampULong (negative : Bool) (v : Nat) : Nat :=
  if v < 2 ^ 64 then (if negative then (2 ^ 64 - v) % 2 ^ 64 else v) else 2 ^ 64 - 1

/-- A conversion of `scanf`: `%02X`, or `%u` when `width` is that of the text. A `0x` that has no digit after it
    within the width does not match. -/
def scan (base width : Nat) (s : List Char) : Option (Nat × List Char) :=
  let (negative, used, s) := sign (skipSpaces s)
  let (n, v, rest) := digits base (width - used) 0 0 s
  if n = 0 ∨ (base = 16 ∧ n = 1 ∧ v = 0 ∧ width - used = 2 ∧ (rest.head? = some 'x' ∨ rest.head? = some 'X')) then none
  else
    some (clampULong negative v % 2 ^ 32, rest)

def atoi (s : List Char) : Int :=
  let (negative, _, s) := sign (skipSpaces s)
  let (_, v, _) := digits 10 s.length 0 0 s
  Int.bmod (clampLong (if negative then -v else v)) (2 ^ 32)

/-- The conversions that follow one another, each after `sep`, at most `n` of them. -/
def scanMany (conv : List Char → Option (Nat × List Char)) (sep : Char) : (n : Nat) → List Char → List Nat
  | 0, _ => []
  | n + 1, s =>
    match conv s with
    | none => []
    | some (v, rest) =>
      v :: match rest with
        | c :: rest => if c = sep then scanMany conv sep n rest else []
        | [] => []

/-- `sscanf` of `%02X:%02X:%02X:%02X:%02X:%02X`, when all six are there. -/
def scanMac (s : List Char) : Option (List UInt8) :=
  let l := scanMany (scan 16 2) ':' 6 s
  if l.length = 6 then some (l.map UInt8.ofNat) else none

/-- `sscanf` of `%u.%u.%u.%u`. -/
def scanOctets (s : List Char) : List Nat := scanMany (fun s => scan 10 s.length s) '.' 4 s

def intoaV4 (l : List Bool) : List Char :=
  let octet (i : Nat) := Nat.toDigits 10 (bitsNat ((l.drop (8 * i)).take 8))
  octet 0 ++ '.' :: octet 1 ++ '.' :: octet 2 ++ '.' :: octet 3

def mac2int (mac : List UInt8) : Nat := mac.foldr (fun b n => b.toNat + 256 * n) 0

namespace Env

variable (E : Env)

def intoaV6 (l : List Bool) : List Char :=
  let ret := E.inetNtop6 l
  if bitsNat (l.take 64) = 0 then
    if bitsNat (l.drop 64) = 0 then "0.0.0.0".toList
    else if bitsNat (l.take 96) = 0xFFFF then ret.drop 7
    else ret
  else ret

def ptreePrefixPrint (p : Prefix Family) : Option (List Char) :=
  match p.family with
  | .inet => some (intoaV4 p.add ++ '/' :: Nat.toDigits 10 p.bitlen)
  | .inet6 => some (E.intoaV6 p.add ++ '/' :: Nat.toDigits 10 p.bitlen)
  | .mac => none

end Env

/-! ## The prefix trees -/

structure PTree (P : Patricia Family) where
  maxbits : Nat
  tree : P.Tree

namespace PTree

variable {P : Patricia Family}

def new (maxbits : Nat) : PTree P := ⟨maxbits, P.new maxbits⟩

def nodes (t : PTree P) : List (Node Family) := P.nodes t.tree

end PTree

/-- `ndpi_fill_prefix_v4` and its like: the prefix is filled when the bits are in range. -/
def fillPrefix (f : Family) (add : List Bool) (bits : Int) (maxbits : Nat) : Option (Prefix Family) :=
  if h : 0 ≤ bits ∧ bits.toNat ≤ maxbits ∧ bits.toNat ≤ add.length then some ⟨f, add, bits.toNat, h.2.2⟩ else none

namespace Env

variable (E : Env)

/-- The prefix of the node, unless it is NULL, and the tree. -/
def addToPtree (t : Option (PTree E.P)) (f : Family) (add : List Bool) (bits : Int) :
    Option (Option (Prefix Family) × Option (PTree E.P)) :=
  match t with
  | none => if E.nullOk then some (none, none) else none
  | some t =>
    match fillPrefix f add bits t.maxbits with
    | none => none
    | some p =>
      match E.P.lookup t.tree p with
      | none => some (none, some t)
      | some tree => some (some p, some { t with tree := tree })

def ptreeMatch (t : Option (PTree E.P)) (f : Family) (add : List Bool) (bits : Int) : Option (Option (Node Family)) :=
  match t with
  | none => if E.nullOk then some none else none
  | some t =>
    match fillPrefix f add bits t.maxbits with
    | none => none
    | some p => some (E.P.searchBest t.tree p)

def ptreeAddRule (t : Option (PTree E.P)) (addrLine : List Char) :
    Option (Option (Prefix Family) × Option (PTree E.P)) :=
  let line := if addrLine.head? = some '[' then addrLine.dropLast.tail else addrLine
  let ip := line.takeWhile (· ≠ '/')
  let slash := (line.dropWhile (· ≠ '/')).tail?
  match scanMac ip with
  | some mac => E.addToPtree t .mac (mac.flatMap fun b => byteBits b.toNat) 48
  | none =>
    if ':' ∈ ip then
      match E.inetPton6 ip with
      | some addr6 => E.addToPtree t .inet6 addr6.val (slash.elim 128 atoi)
      | none => some (none, t)
    else
      let ip4 := scanOctets ip
      if ip4.length ≥ 1 then
        let octet (i : Nat) := byteBits (ip4.getD i 0 % 256)
        let numBits := min (slash.elim 32 atoi) 32
        E.addToPtree t .inet (octet 0 ++ octet 1 ++ octet 2 ++ octet 3) numBits
      else some (none, t)

end Env

/-! ## The address tree -/

structure AddressTree (E : Env) where
  ptreeV4 : Option (PTree E.P)
  ptreeV6 : Option (PTree E.P)
  /-- By the number of the MAC, in order. -/
  macs : List (Nat × Int64)
  numAddresses : UInt32
  numAddressesIPv4 : UInt32
  numAddressesIPv6 : UInt32

def insertMac (k : Nat) (v : Int64) : List (Nat × Int64) → List (Nat × Int64)
  | [] => [(k, v)]
  | (j, w) :: l => if k < j then (k, v) :: (j, w) :: l else if k = j then (k, v) :: l else (j, w) :: insertMac k v l

namespace AddressTree

variable {E : Env}

def init (handleIPv6 : Bool) : AddressTree E :=
  { ptreeV4 := some (.new 32), ptreeV6 := if handleIPv6 then some (.new 128) else none, macs := []
    numAddresses := 0, numAddressesIPv4 := 0, numAddressesIPv6 := 0 }

variable (t : AddressTree E)

def getTree (isV4 : Bool) : Option (PTree E.P) := if isV4 then t.ptreeV4 else t.ptreeV6

def setTree (isV4 : Bool) (p : Option (PTree E.P)) : AddressTree E :=
  if isV4 then { t with ptreeV4 := p } else { t with ptreeV6 := p }

/-- `ndpi_patricia_set_node_u64` of a node just returned. -/
def setNodeU64 (isV4 : Bool) (p : Prefix Family) (v : UInt64) : AddressTree E :=
  t.setTree isV4 ((t.getTree isV4).map fun q => { q with tree := E.P.setU64 q.tree p v })

/-- From text. -/
def addAddress (what : List Char) (userData : Int64) : Option (Bool × AddressTree E) :=
  let id := if userData = -1 then t.numAddresses.toUInt64.toInt64 else userData
  match scanMac what with
  | some mac => some (true, { t with macs := insertMac (mac2int mac) id t.macs })
  | none =>
    let isV4 := decide ('.' ∈ what)
    match E.ptreeAddRule (t.getTree isV4) what with
    | none => none
    | some (none, p) => some (false, t.setTree isV4 p)
    | some (some node, p) =>
      some (true, { (t.setTree isV4 p).setNodeU64 isV4 node id.toUInt64 with numAddresses := t.numAddresses + 1 })

/-- Of one address. -/
def addIpAddress (ipa : IpAddress) : Option (AddressTree E) :=
  let isV4 := decide (ipa.family = .inet)
  if !isV4 && t.ptreeV6.isNone then some t
  else
    match E.ptreeMatch (t.getTree isV4) ipa.family ipa.bits ipa.width with
    | none => none
    | some (some _) => some t
    | some none =>
      match E.addToPtree (t.getTree isV4) ipa.family ipa.bits ipa.width with
      | none => none
      | some (none, p) => some (t.setTree isV4 p)
      | some (some _, p) =>
        some
          { t.setTree isV4 p with
            numAddresses := t.numAddresses + 1
            numAddressesIPv4 := if isV4 then t.numAddressesIPv4 + 1 else t.numAddressesIPv4
            numAddressesIPv6 := if isV4 then t.numAddressesIPv6 else t.numAddressesIPv6 + 1 }

/-- The exact search goes by the bits of the prefix. -/
def removePrefix (isV4 : Bool) (p : Prefix Family) : AddressTree E :=
  match t.getTree isV4 with
  | none => t
  | some q =>
    if q.nodes.any fun n => Patricia.sameKey n.key p then
      { t.setTree isV4 (some { q with tree := E.P.remove q.tree p }) with
        numAddresses := t.numAddresses - 1
        numAddressesIPv4 := if isV4 then t.numAddressesIPv4 - 1 else t.numAddressesIPv4
        numAddressesIPv6 := if isV4 then t.numAddressesIPv6 else t.numAddressesIPv6 - 1 }
    else t

/-- The nodes below that of `p` which are longer than `networkBits`. -/
def largerBitlens (isV4 : Bool) (p : Prefix Family) (networkBits : Int) : List (Prefix Family) :=
  match t.getTree isV4 with
  | none => []
  | some q => (q.nodes.map Node.key).filter fun n => decide (p.Covers n) && decide ((n.bitlen : Int) > networkBits)

/-- Of a network: the prefix of the node that is returned, unless it is NULL. `networkBits` is brought into range
    for the compaction only. -/
def addIpNetwork (ipa : IpAddress) (networkBits : Int) (compactAfterAdd : Bool) :
    Option (Option (Prefix Family) × AddressTree E) :=
  let isV4 := decide (ipa.family = .inet)
  if !isV4 && t.ptreeV6.isNone then some (none, t)
  else
    let clamped := max 0 (min networkBits ipa.width)
    match E.ptreeMatch (t.getTree isV4) ipa.family ipa.bits networkBits with
    | none => none
    | some (some node) => some (some node.key, t)
    | some none =>
      match E.addToPtree (t.getTree isV4) ipa.family ipa.bits networkBits with
      | none => none
      | some (none, p) => some (none, t.setTree isV4 p)
      | some (some node, p) =>
        let t := t.setTree isV4 p
        let t := if compactAfterAdd then (t.largerBitlens isV4 node clamped).foldl (·.removePrefix isV4) t else t
        some (some node, t)

/-- `BroadcastDomains::addAddress`: a network that no node covers is added under the next id. -/
def addDomain (ipa : IpAddress) (networkBits : Int) (nextDomainId : UInt16) : Option (AddressTree E) :=
  let isV4 := decide (ipa.family = .inet)
  let found :=
    if !isV4 && t.ptreeV6.isNone then some none else E.ptreeMatch (t.getTree isV4) ipa.family ipa.bits networkBits
  match found with
  | none => none
  | some (some _) => some t
  | some none =>
    match t.addIpNetwork ipa networkBits true with
    | none => none
    | some (none, t) => some t
    | some (some node, t) => some (t.setNodeU64 isV4 node nextDomainId.toUInt64)

/-! ## Lookups -/

def nodeAnswer : Option (Node Family) → Int64 × Option Nat
  | none => (-1, none)
  | some node => (node.data.toInt64, some node.key.bitlen)

/-- The number and the bits of the network that matches. -/
def findAddress (f : Family) (addr : List Bool) : Int64 × Option Nat :=
  let p := match f with
    | .inet => t.ptreeV4.map fun q => (q, 32)
    | .inet6 => t.ptreeV6.map fun q => (q, 128)
    | .mac => none
  match p with
  | none => (-1, none)
  | some (p, bits) => nodeAnswer ((fillPrefix f addr bits p.maxbits).bind (E.P.searchBest p.tree))

def findMac (addr : List UInt8) : Int64 := (t.macs.lookup (mac2int addr)).getD (-1)

def find (addr : List Char) : Int64 × Option Nat :=
  if '.' ∈ addr then
    match E.inetPton4 addr with
    | some a => t.findAddress .inet a.val
    | none => (-1, none)
  else
    match scanMac addr with
    | some mac => (t.findMac mac, none)
    | none =>
      match E.inetPton6 addr with
      | some a => t.findAddress .inet6 a.val
      | none => (-1, none)

/-! ## Saving -/

def cleanup : AddressTree E := { t with ptreeV4 := none, ptreeV6 := none, macs := [] }

def treeEntries (p : Option (PTree E.P)) : List (List Char × Int) :=
  (p.elim [] PTree.nodes).filterMap fun n => (E.ptreePrefixPrint n.key).map fun address => (address, (n.data.toNat : Int))

/-- The number of a MAC in a buffer of eight bytes. -/
def macEntry (e : Nat × Int64) : List Char := (Nat.toDigits 10 e.2.toUInt64.toNat).take 7

def doc : Doc := { ip := some (treeEntries t.ptreeV4 ++ treeEntries t.ptreeV6), mac := some (t.macs.map macEntry) }

def serialize (bufLen : UInt32) : Option (List Char) :=
  (E.write t.doc).map fun json => json.take (min (bufLen - 1).toNat json.length)

/-- `json_object_get_int`. -/
def jsonInt (v : Int) : Int64 := Int64.ofInt (max (-(2 ^ 31)) (min v (2 ^ 31 - 1)))

/-- Calls of `addAddress`, whatever they return. -/
def addAll : List (List Char × Int64) → AddressTree E → Option (AddressTree E)
  | [], t => some t
  | (what, userData) :: l, t =>
    match t.addAddress what userData with
    | none => none
    | some (_, t) => addAll l t

/-- The calls that `deserialize` makes for a document. -/
def docCalls (d : Doc) : List (List Char × Int64) :=
  (d.ip.getD []).map (fun e => (e.1, jsonInt e.2)) ++ (d.mac.getD []).map fun item => (item, -1)

def deserialize (json : Option (List Char)) : Option (Bool × AddressTree E) :=
  match json.bind E.parse with
  | none => some (false, t)
  | some d => (addAll (docCalls d) t.cleanup).map fun t => (true, t)

end AddressTree

/-! ## Building a tree -/

inductive Op where
  | text (what : List Char) (userData : Int64)
  | address (ipa : IpAddress)
  | network (ipa : IpAddress) (networkBits : Int) (compactAfterAdd : Bool)
  | domain (ipa : IpAddress) (networkBits : Int) (nextDomainId : UInt16)

def apply {E : Env} (t : AddressTree E) : Op → Option (AddressTree E)
  | .text what userData => (t.addAddress what userData).map Prod.snd
  | .address ipa => t.addIpAddress ipa
  | .network ipa networkBits compactAfterAdd => (t.addIpNetwork ipa networkBits compactAfterAdd).map Prod.snd
  | .domain ipa networkBits nextDomainId => t.addDomain ipa networkBits nextDomainId

def build {E : Env} : List Op → AddressTree E → Option (AddressTree E)
  | [], t => some t
  | op :: ops, t => (apply t op).bind (build ops)

/-! ## What is kept -/

/-- All lookups answer the same. -/
structure SameLookup {E : Env} (t t' : AddressTree E) : Prop where
  address : ∀ ipa : IpAddress, t'.findAddress ipa.family ipa.bits = t.findAddress ipa.family ipa.bits
  mac : ∀ addr, t'.findMac addr = t.findMac addr
  text : ∀ addr, t'.find addr = t.find addr

/-- The tree read back from the JSON into `target` answers as `t` does. -/
def Restored {E : Env} (t target : AddressTree E) (json : Option (List Char)) : Prop :=
  ∃ ok t', target.deserialize json = some (ok, t') ∧ SameLookup t t'

structure Empty {E : Env} (t : AddressTree E) : Prop where
  v4 : t.ptreeV4.elim [] PTree.nodes = []
  v6 : t.ptreeV6.elim [] PTree.nodes = []
  macs : t.macs = []

/-- The document is in the buffer as a whole. -/
def Fits {E : Env} (t : AddressTree E) (bufLen : UInt32) : Prop :=
  ∃ json, E.write t.doc = some json ∧ json.length ≤ (bufLen - 1).toNat

/-- What is relied on of the writer and the parser: they agree on the document, and a document that is cut off is
    no document. -/
structure JsonOk (E : Env) (d : Doc) : Prop where
  whole : ∀ json, E.write d = some json → E.parse json = some d
  cut : ∀ json, E.write d = some json → ∀ n, n < json.length → E.parse (json.take n) = none

/-! ## Broadcast domains -/

/-- The destructor saves them through a buffer of 256 bytes. -/
def saveBroadcastDomains {E : Env} (t : AddressTree E) : Option (List Char) := t.serialize 256

/-- The constructor reads what was saved into a new tree. -/
def BroadcastDomainsRestored {E : Env} (t : AddressTree E) : Prop :=
  Restored t (.init true) (saveBroadcastDomains t)

end Ntopng.Addresses
