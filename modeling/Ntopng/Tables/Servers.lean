/-
  Ntopng.Tables.Servers — the configured servers of each service (src/ServerConfiguration.cpp,
  include/ServerConfiguration.h; `HostService`, include/ntop_defines.h; `hostService2str`,
  src/Utils.cpp).

  One table of address trees holds the servers of all services, each with a bitmap of the
  services it is configured for. A reload fills a new table from redis, from a list of entries
  separated by commas for each service: an address, and behind an `@` the VLAN. To add an entry
  the bitmap that is there is looked up by the text of the address, and written again with one
  bit more.

  A text of redis is that in front of its NUL, and never longer than 512 MB. The memory for
  the trees and the text is there. Traces are left out.

  `Lists` is what a list says, by its text alone.
-/

import Ntopng.Addresses.TagsProofs
import Ntopng.Flows.CustomScriptProofs
import Ntopng.Lib.Lines

namespace Ntopng.Tables.Servers

open Ntopng.Addresses Ntopng.Addresses.Tags Ntopng.Lib.Lines Ntopng.Lib.Prefixes
open Ntopng.Flows.CustomScript (Pton6)

abbrev Text := List Char

abbrev RedisText := { s : Text // s.length ≤ 512 * 1024 * 1024 }

abbrev Redis := Text → Option RedisText

/-! ## Services -/

inductive HostService where
  | dhcp
  | dns
  | ntp
  | smtp
  | imap
  | pop
  | http
  | ssh
  | rdp
  | modbus
  | s7comm
  | profinet
  | gateway
  | powershell
  | ftp
  | windowsDomainController
  deriving DecidableEq

namespace HostService

def value : HostService → ℕ
  | dhcp => 1
  | dns => 2
  | ntp => 3
  | smtp => 4
  | imap => 5
  | pop => 6
  | http => 7
  | ssh => 8
  | rdp => 9
  | modbus => 10
  | s7comm => 11
  | profinet => 12
  | gateway => 13
  | powershell => 14
  | ftp => 15
  | windowsDomainController => 16

/-- From 1 up to `HOST_SERVICE_MAX`. -/
def all : List HostService :=
  [dhcp, dns, ntp, smtp, imap, pop, http, ssh, rdp, modbus, s7comm, profinet, gateway, powershell, ftp,
    windowsDomainController]

end HostService

def hostService2str : HostService → Text
  | .dhcp => "dhcp".toList
  | .dns => "dns".toList
  | .ntp => "ntp".toList
  | .smtp => "smtp".toList
  | .imap => "imap".toList
  | .pop => "pop".toList
  | .http => "http".toList
  | .ssh => "ssh".toList
  | .rdp => "rdp".toList
  | .modbus => "modbus".toList
  | .s7comm => "s7comm".toList
  | .profinet => "profinet".toList
  | .gateway => "gateway".toList
  | .powershell => "powershell".toList
  | .ftp => "ftp".toList
  | .windowsDomainController => "windows_domain_controller".toList

/-- In a buffer of 64 bytes. -/
def serviceKey (type : HostService) : Text :=
  ("ntopng.prefs.nw_config_".toList ++ hostService2str type ++ "_list".toList).take 63

/-! ## The code -/

structure ServersTree (E : Env) where
  tree : VLANAddressTree E := .empty
  numServers : HostService → UInt32 := fun _ => 0

structure ServerConfiguration (E : Env) where
  servers : ServersTree E := {}
  serversShadow : Option (ServersTree E) := none

variable {E : Env}

def typeBit (type : HostService) : UInt64 := 1 <<< UInt64.ofNat type.value

def curTypes (st : ServersTree E) (vlanId : UInt16) (net : Text) : Int64 :=
  match st.tree.tree (vlanIndex vlanId) with
  | some t => (t.find net).1
  | none => -1

/-- `none` is the fault of the tree. -/
def addServer (st : ServersTree E) (type : HostService) (vlanId : UInt16) (net : Text) : Option (ServersTree E) :=
  let curTypes := curTypes st vlanId net
  let types := (if curTypes > 0 then curTypes.toUInt64 else 0) ||| typeBit type
  (st.tree.addAddress vlanId net types.toInt64).map fun r =>
    { tree := r.2
      numServers := if r.1 then Function.update st.numServers type (st.numServers type + 1) else st.numServers }

/-- `ipStr.erase(std::remove(ipStr.begin(), ipStr.end(), ' '), ipStr.end())` -/
def removeSpaces (ipStr : Text) : Text := ipStr.filter (· ≠ ' ')

def loadItems (type : HostService) : List Text → ServersTree E → Option (ServersTree E)
  | [], st => some st
  | ip :: ipList, st =>
    if ip = [] then loadItems type ipList st
    else
      let (vlanId, net) := match after '@' ip with
        | some vlan => (atoi16 vlan, before '@' ip)
        | none => (0, ip)
      (addServer st type vlanId net).bind (loadItems type ipList)

def rspOf (redis : Redis) (type : HostService) : Text := ((redis (serviceKey type)).map Subtype.val).getD []

def loadConfiguration (redis : Redis) (st : ServersTree E) (type : HostService) : Option (ServersTree E) :=
  let rsp := rspOf redis type
  if rsp.length > 0 then loadItems type (lines ',' (removeSpaces rsp) []) st else some st

def reloadServersConfiguration (redis : Redis) (c : ServerConfiguration E) : Option (ServerConfiguration E) :=
  (HostService.all.foldlM (loadConfiguration redis) {}).map fun newServers =>
    { servers := newServers, serversShadow := some c.servers }

/-- `none` is a fault. -/
def getServerTypes (c : ServerConfiguration E) (ip : IpAddress) (vlanId : UInt16) : Option UInt32 :=
  match c.servers.tree.tree (vlanIndex vlanId) with
  | none => some 0
  | some t =>
    (E.ptreeMatch (t.getTree (isV4 ip)) ip.family ip.bits ip.width).map fun foundNode =>
      match foundNode with
      | some node => node.data.toUInt32
      | none => 0

def isServer (c : ServerConfiguration E) (type : HostService) (ip : IpAddress) (vlanId : UInt16) : Option Bool :=
  (getServerTypes c ip vlanId).map fun types => decide (types &&& 1 <<< UInt32.ofNat type.value ≠ 0)

def isEmptyConfiguration (c : ServerConfiguration E) (type : HostService) : Bool := c.servers.numServers type == 0

def run : List Redis → ServerConfiguration E → Option (ServerConfiguration E)
  | [], c => some c
  | redis :: rs, c => (reloadServersConfiguration redis c).bind (run rs)

/-! ## The lists -/

def entries (redis : Redis) (type : HostService) : List Text := (removeSpaces (rspOf redis type)).splitOn ','

/-- The number that digits are, less than 4096. -/
def vlanOf (s : Text) : Option ℕ :=
  if s ≠ [] ∧ s.all Char.isDigit ∧ Nat.ofDigitChars 10 s 0 < maxNumVlan then some (Nat.ofDigitChars 10 s 0) else none

/-- The text of the address, as it is. -/
def Exact (E : Env) (net : Text) : IpAddress → Prop
  | .v4 a => E.inetPton4 net = some a
  | .v6 a => E.inetPton6 net = some a

/-- An entry without a VLAN is for VLAN 0. -/
def Names (E : Env) (entry : Text) (ip : IpAddress) (vlan : ℕ) : Prop :=
  Exact E (before '@' entry) ip ∧ (after '@' entry).elim (some 0) vlanOf = some vlan

def Valid (E : Env) (entry : Text) : Prop := ∃ ip vlan, Names E entry ip vlan

def Lists (E : Env) (redis : Redis) (type : HostService) (ip : IpAddress) (vlan : ℕ) : Prop :=
  ∃ entry ∈ entries redis type, Names E entry ip vlan

/-- A VLAN is its twelve bits. -/
structure Answers (redis : Redis) (c : ServerConfiguration E) : Prop where
  isServer : ∀ type ip vlanId, ∃ b, isServer c type ip vlanId = some b ∧
    (b = true ↔ Lists E redis type ip (vlanIndex vlanId))
  isEmpty : ∀ type, isEmptyConfiguration c type = true ↔ ∀ entry ∈ entries redis type, ¬ Valid E entry

/-- What is in front of the `@` is not taken for a MAC. It is refused, or else the entry is valid, and an IPv6
    address has no dot. -/
def Clean (E : Env) (entry : Text) : Prop :=
  scanMac (before '@' entry) = none ∧
    (Counts.ruleOf E (before '@' entry) = none ∨
      Valid E entry ∧ (E.inetPton6 (before '@' entry) ≠ none → '.' ∉ before '@' entry))

def CleanLists (E : Env) (redis : Redis) : Prop := ∀ type, ∀ entry ∈ entries redis type, Clean E entry

/-- What `inet_pton` takes for an IPv4 address is its four numbers, with dots. -/
structure Pton4 (E : Env) : Prop where
  dot : ∀ s a, E.inetPton4 s = some a → '.' ∈ s
  chars : ∀ s a, E.inetPton4 s = some a → ∀ c ∈ s, c = '.' ∨ (digit 10 c).isSome
  octets : ∀ s a, E.inetPton4 s = some a → scanOctets s = scanOctets (intoaV4 a.val)

end Ntopng.Tables.Servers
