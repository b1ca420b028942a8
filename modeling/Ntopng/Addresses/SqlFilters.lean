/-
  Ntopng.Addresses.SqlFilters — the SQL conditions for the networks a user may see
  (`allowed_nets_walker`, `Utils::buildSqliteAllowedNetworksFilters`, src/Utils.cpp).

  The user's networks are an address tree. A walk turns each of them into a pair of bounds in
  the form the addresses have in the database: sixteen bytes, of which an IPv4 address has
  the last four. A host is admitted between the bounds of some network, a flow if its client
  or its server is. A network of length 0 ends the walk without filters, which admit all.

  The law: a host is admitted exactly if the tree matches its address, a flow if it matches
  one of the peers, and with a match-all network both filters are gone. Addresses may be taken
  by their stored form (`FormsOk`), in which an IPv4 address is also an IPv6 address of ::/96, or
  the families told apart (`FiltersOk`).

  The bounds are right for whole bytes. Of a last byte with `k` network bits, however, the
  walker keeps the low `k` bits and frees the high ones (`1 << (bit % 8)` counts the bits from
  the wrong end). What this makes of a network is said by its length and last byte (`spanned`),
  next to what the network holds (`held`).
-/

import Ntopng.Addresses.Restore
import Ntopng.Lib.Cylinders

namespace Ntopng.Addresses

open Ntopng.Lib.Prefixes Ntopng.Lib.Cylinders

/-! ## Conditions -/

abbrev In6Addr := List UInt8

inductive Column where
  | ip
  | cliIp
  | srvIp
  deriving DecidableEq, Repr

def Column.text : Column → List Char
  | .ip => "ip".toList
  | .cliIp => "cli_ip".toList
  | .srvIp => "srv_ip".toList

inductive Cond where
  | ge (column : Column) (value : In6Addr)
  | le (column : Column) (value : In6Addr)
  | and (a b : Cond)
  | or (a b : Cond)
  /-- An `OR` between filters, without brackets. -/
  | append (a b : Cond)
  deriving DecidableEq, Repr

def hexChars : List Char := "0123456789ABCDEF".toList

def hex (value : In6Addr) : List Char :=
  value.flatMap fun (v : UInt8) => [hexChars.getD ((v >>> 4) &&& 0xF).toNat '0', hexChars.getD (v &&& 0xF).toNat '0']

def Cond.text : Cond → List Char
  | .ge column value => '(' :: column.text ++ " >= x'".toList ++ hex value ++ "')".toList
  | .le column value => '(' :: column.text ++ " <= x'".toList ++ hex value ++ "')".toList
  | .and a b => '(' :: a.text ++ " AND ".toList ++ b.text ++ [')']
  | .or a b => '(' :: a.text ++ " OR ".toList ++ b.text ++ [')']
  | .append a b => a.text ++ " OR ".toList ++ b.text

abbrev Row := Column → In6Addr

/-- The database compares blobs byte by byte. -/
def Cond.eval (row : Row) : Cond → Bool
  | .ge column value => decide (value ≤ row column)
  | .le column value => decide (row column ≤ value)
  | .and a b => a.eval row && b.eval row
  | .or a b => a.eval row || b.eval row
  | .append a b => a.eval row || b.eval row

/-! ## The walk -/

/-- A pointer to the text of a filter. -/
inductive Filter where
  | null
  | text (c : Cond)
  | freed
  deriving DecidableEq, Repr

/-- Without a filter everything is admitted; nothing can be said of one that was freed. -/
def Filter.admits (row : Row) : Filter → Option Bool
  | .null => some true
  | .text c => some (c.eval row)
  | .freed => none

def Filter.append (c : Cond) : Filter → Filter
  | .text d => .text (.append d c)
  | _ => .text c

structure SqliteFilterData where
  matchAll : Bool
  hostsFilter : Filter
  flowsFilter : Filter
  /-- Filters that no pointer leads to any more. -/
  leaked : List Cond
  deriving DecidableEq, Repr

def bytes (bits : List Bool) : In6Addr :=
  (List.range (bits.length / 8)).map fun j => UInt8.ofNat (bitsNat ((bits.drop (8 * j)).take 8))

def hostBit (i : Nat) : UInt8 := 1 <<< UInt8.ofNat ((127 - i) % 8)

/-- The bits of the address after the network's, one after the other. -/
def raise (bitlen : Nat) (addr : In6Addr) : In6Addr :=
  (List.range (128 - bitlen)).foldl (fun a i => a.modify ((127 - i) / 8) (· ||| hostBit i)) addr

def clear (bitlen : Nat) (addr : In6Addr) : In6Addr :=
  (List.range (128 - bitlen)).foldl (fun a i => a.modify ((127 - i) / 8) (· &&& ~~~hostBit i)) addr

/-- The address of a network as sixteen bytes, and its length there. -/
def netAddr (p : Prefix Family) : In6Addr :=
  if p.family = .inet then List.replicate 12 0 ++ bytes p.add else bytes p.add

def netBitlen (p : Prefix Family) : Nat := if p.family = .inet then p.bitlen + 96 else p.bitlen

def between (column : Column) (lower upper : In6Addr) : Cond := .and (.ge column lower) (.le column upper)

def allowedNetsWalker (data : SqliteFilterData) (node : Node Family) : SqliteFilterData :=
  if data.matchAll then data
  else if node.key.bitlen = 0 then
    let data := { data with matchAll := true }
    let data :=
      match data.hostsFilter with
      | .null => data
      | _ =>
        { data with
          hostsFilter := .freed, flowsFilter := .null
          leaked := match data.flowsFilter with
            | .text c => data.leaked ++ [c]
            | _ => data.leaked }
    match data.flowsFilter with
    | .null => data
    | _ => { data with flowsFilter := .null }
  else
    let lower := clear (netBitlen node.key) (netAddr node.key)
    let upper := raise (netBitlen node.key) (netAddr node.key)
    { data with
      hostsFilter := data.hostsFilter.append (between .ip lower upper)
      flowsFilter := data.flowsFilter.append (.or (between .cliIp lower upper) (between .srvIp lower upper)) }

variable {E : Env}

def AddressTree.walk (t : AddressTree E) : List (Node Family) :=
  t.ptreeV4.elim [] PTree.nodes ++ t.ptreeV6.elim [] PTree.nodes

def buildSqliteAllowedNetworksFilters (t : AddressTree E) : SqliteFilterData :=
  t.walk.foldl allowedNetsWalker ⟨false, .null, .null, []⟩

/-- A network of whole bytes. -/
example : (allowedNetsWalker ⟨false, .null, .null, []⟩
      ⟨⟨.inet, [192, 168, 1, 0].flatMap byteBits, 24, by decide⟩, 0⟩).hostsFilter =
    .text (between .ip [0, 0, 0, 0, 0, 0, 0, 0, 0, 0, 0, 0, 192, 168, 1, 0]
      [0, 0, 0, 0, 0, 0, 0, 0, 0, 0, 0, 0, 192, 168, 1, 255]) := by
  decide

/-! ## The law -/

/-- `AddressTree::match` of the whole address. -/
def AddressTree.matchAddress (t : AddressTree E) (ipa : IpAddress) : Option (Option (Node Family)) :=
  let isV4 := decide (ipa.family = .inet)
  if !isV4 && t.ptreeV6.isNone then some none
  else E.ptreeMatch (t.getTree isV4) ipa.family ipa.bits ipa.width

def AddressTree.accepts (t : AddressTree E) (ipa : IpAddress) : Bool := (t.matchAddress ipa).any Option.isSome

/-- The networks of a user: IPv4 and IPv6 prefixes, each in the tree of its family. -/
structure AllowedNets (E : Env) where
  tree : AddressTree E
  v4 : PTree E.P
  ptreeV4 : tree.ptreeV4 = some v4
  maxbitsV4 : v4.maxbits = 32
  nodesV4 : ∀ n ∈ v4.nodes, n.key.family = .inet ∧ n.key.add.length = 32
  v6 : ∀ q, tree.ptreeV6 = some q → q.maxbits = 128 ∧ ∀ n ∈ q.nodes, n.key.family = .inet6 ∧ n.key.add.length = 128

/-- The form of an address in the database. -/
def dbForm (ipa : IpAddress) : In6Addr :=
  if ipa.family = .inet then List.replicate 12 0 ++ bytes ipa.bits else bytes ipa.bits

def hostRow (ipa : IpAddress) : Row := fun _ => dbForm ipa

def flowRow (cli srv : IpAddress) : Row
  | .srvIp => dbForm srv
  | _ => dbForm cli

/-- The families are told apart. -/
structure FiltersOk (a : AllowedNets E) : Prop where
  hosts : ∀ ipa, (buildSqliteAllowedNetworksFilters a.tree).hostsFilter.admits (hostRow ipa) = some (a.tree.accepts ipa)
  flows : ∀ cli srv, (buildSqliteAllowedNetworksFilters a.tree).flowsFilter.admits (flowRow cli srv) =
    some (a.tree.accepts cli || a.tree.accepts srv)
  released : (∃ n ∈ a.tree.walk, n.key.bitlen = 0) →
    (buildSqliteAllowedNetworksFilters a.tree).hostsFilter = .null ∧
      (buildSqliteAllowedNetworksFilters a.tree).flowsFilter = .null ∧
      (buildSqliteAllowedNetworksFilters a.tree).leaked = []

/-- The tree matches an address of this stored form. -/
def AddressTree.AcceptsForm (t : AddressTree E) (form : In6Addr) : Prop := ∃ ipa, dbForm ipa = form ∧ t.accepts ipa = true

/-- Addresses are their stored forms. -/
structure FormsOk (a : AllowedNets E) : Prop where
  hosts : ∀ ipa, ∃ b, (buildSqliteAllowedNetworksFilters a.tree).hostsFilter.admits (hostRow ipa) = some b ∧
    (b = true ↔ a.tree.AcceptsForm (dbForm ipa))
  flows : ∀ cli srv, ∃ b, (buildSqliteAllowedNetworksFilters a.tree).flowsFilter.admits (flowRow cli srv) = some b ∧
    (b = true ↔ a.tree.AcceptsForm (dbForm cli) ∨ a.tree.AcceptsForm (dbForm srv))
  released : (∃ n ∈ a.tree.walk, n.key.bitlen = 0) →
    (buildSqliteAllowedNetworksFilters a.tree).hostsFilter = .null ∧
      (buildSqliteAllowedNetworksFilters a.tree).flowsFilter = .null ∧
      (buildSqliteAllowedNetworksFilters a.tree).leaked = []

/-! ### The networks for which it holds -/

def wholeBytes (p : Prefix Family) : In6Addr := (netAddr p).take (netBitlen p / 8)

/-- The byte in which the network ends, unless it is of whole bytes. -/
def lastByte (p : Prefix Family) : Nat := ((netAddr p).getD (netBitlen p / 8) 0).toNat

/-- The whole bytes of a network, and behind them those bytes that `ok` says, unless the network ends before. -/
def behind (p : Prefix Family) (ok : Nat → Bool) : List In6Addr :=
  if netBitlen p % 8 = 0 then [wholeBytes p]
  else ((List.range 256).filter ok).map fun b => wholeBytes p ++ [UInt8.ofNat b]

/-- What a network holds: bytes with the `k` high bits of its last one. -/
def held (p : Prefix Family) : List In6Addr :=
  let k := netBitlen p % 8
  behind p fun b => b / 2 ^ (8 - k) = lastByte p / 2 ^ (8 - k)

/-- What becomes of it: bytes from the `k` low bits of its last one up to these with all others set. -/
def spanned (p : Prefix Family) : List In6Addr :=
  let k := netBitlen p % 8
  behind p fun b => lastByte p % 2 ^ k ≤ b ∧ b ≤ lastByte p % 2 ^ k + (256 - 2 ^ k)

def heldBy (l : List (Node Family)) : List In6Addr := l.flatMap fun n => held n.key

def spannedBy (l : List (Node Family)) : List In6Addr := l.flatMap fun n => spanned n.key

/-- Networks that do not end with a byte: what becomes of them is held by the networks together, and what they hold
    is in what becomes of the networks together. -/
def RightLengths (l : List (Node Family)) : Prop :=
  ∀ n ∈ l, netBitlen n.key % 8 ≠ 0 →
    (∀ c ∈ spanned n.key, Filled (heldBy l) (16 - c.length) c) ∧ ∀ c ∈ held n.key, Filled (spannedBy l) (16 - c.length) c

/-- The first network matches all, and the networks hold everything; or there are some, and none matches all. -/
def RightNets (l : List (Node Family)) : Prop :=
  ((∃ n rest, l = n :: rest ∧ n.key.bitlen = 0) ∧ Filled (heldBy l) 16 []) ∨
    (l ≠ [] ∧ (∀ n ∈ l, n.key.bitlen ≠ 0) ∧ RightLengths l)

/-- What stands in front of an IPv4 address. -/
def mapped : In6Addr := List.replicate 12 0

/-- The networks of both families hold the same of ::/96. -/
def SameFamilies (l : List (Node Family)) : Prop :=
  let v4 := heldBy (l.filter fun n => n.key.family = .inet)
  let v6 := heldBy (l.filter fun n => n.key.family ≠ .inet)
  (∀ c ∈ v4, Filled v6 (16 - c.length) c) ∧
    ∀ c ∈ v6, (c <+: mapped → Filled v4 4 mapped) ∧ (mapped <+: c → Filled v4 (16 - c.length) c)

end Ntopng.Addresses
