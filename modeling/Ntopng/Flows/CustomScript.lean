/-
  Ntopng.Flows.CustomScript — the filter and the exclude of a custom flow script
  (src/flow_checks/CustomFlowLuaScript.cpp).

  The code: the tables of a script's definition are read once, field by field, and each flow is
  held against them before the script's function is called. A value that has no reading refuses
  the definition. Addresses go to address trees, read as anywhere else from text.

  A value of the VM is what `getList` sees of it: strings and numbers as the text that `lua_tostring` makes
  of them, a table as its list and whether it has more than that. The other fields of the definition
  (`title`, `score`, `hooks`, `check`) and the function itself are left out. What nDPI knows of its protocols
  is a parameter, as are the prefix trees and the conversions of addresses.

  What the fields are for, as their documentation has it: `Documented` definitions, and `Wanted` flows. `Taken`
  is what becomes of a documented address. The proofs are in CustomScriptProofs.
-/

import Ntopng.Addresses.Counts
import Ntopng.Addresses.TagsText
import Ntopng.Lib.Decimal

namespace Ntopng.Flows.CustomScript

open Ntopng.Addresses
open Ntopng.Lib.CString (isspace)
open Ntopng.Lib.CNumber (clampLong)

abbrev Text := List Char

/-! ## Values of the VM -/

inductive LuaValue where
  | nil
  /-- A string or a number. -/
  | scalar (s : Text)
  /-- Its items up to `lua_rawlen`, `none` where there is neither a string nor a number. -/
  | table (items : List (Option Text)) (more : Bool)
  | other

/-- In the order of `lua_next`; the key is `none` unless it is a string. -/
abbrev LuaTable := List (Option Text × LuaValue)

def lua_getfield (t : LuaTable) (field : Text) : LuaValue := ((t.find? fun e => e.1 = some field).map (·.2)).getD .nil

/-- What a C string is of a text. -/
def cut (s : Text) : Text := s.takeWhile (· ≠ '\x00')

/-! ## Reading a definition -/

inductive Failure where
  | refused (err : Text)
  /-- A prefix that is not filled goes into a tree. -/
  | fault

abbrev Parsed (α : Type) := Except Failure α

def refuse {α : Type} (err : List Text) : Parsed α := .error (.refused err.flatten)

def quoted (s : Text) : Text := '\'' :: s ++ ['\'']

def getList (t : LuaTable) (field : Text) : Parsed (List Text) :=
  match lua_getfield t field with
  | .nil => .ok []
  | .scalar s => .ok [cut s]
  | .table items _ =>
    items.mapM fun
      | some s => .ok (cut s)
      | none => refuse [quoted field, ": strings or numbers expected".toList]
  | .other => refuse [quoted field, ": a value or a list expected".toList]

/-- The number and what follows it. -/
def strtol (s : Text) : ℤ × Text :=
  let (negative, _, s') := sign (s.dropWhile isspace)
  let (n, v, rest) := digits 10 s'.length 0 0 s'
  if n = 0 then (0, s) else (clampLong (if negative then -v else v), rest)

def toInt (v : Text) (min max : ℤ) : Option ℤ :=
  let (n, rest) := strtol v
  if v = [] ∨ rest ≠ [] ∨ n < min ∨ max < n then none else some n

def filterKeys : List Text :=
  ["cli_ip".toList, "srv_ip".toList, "ip".toList, "cli_port".toList, "srv_port".toList, "port".toList,
    "l4_proto".toList, "l7_proto".toList]

def checkKey (allowed : List Text) (what : Text) : Option Text → Parsed Unit
  | some k => if cut k ∈ allowed then .ok () else refuse [what, ": unknown key ".toList, quoted (cut k)]
  | none => refuse [what, ": only named keys are allowed".toList]

def checkKeys (t : LuaTable) (allowed : List Text) (what : Text) : Parsed Unit :=
  t.forM fun e => checkKey allowed what e.1

section Fields

variable (E : Env) (getnDPIProtoByName : Text → UInt16)

def addAddress (field : Text) (tree : AddressTree E) (v : Text) : Parsed (AddressTree E) :=
  match tree.addAddress v (-1) with
  | none => .error .fault
  | some (true, tree) => .ok tree
  | some (false, _) => refuse [quoted field, ": invalid IP or network ".toList, quoted v]

def parseIPs (t : LuaTable) (field : Text) : Parsed (Option (AddressTree E)) := do
  let values ← getList t field
  if values = [] then .ok none else some <$> values.foldlM (addAddress E field) (.init true)

def parsePort (field v : Text) : Parsed UInt16 :=
  match toInt v 0 65535 with
  | some n => .ok (UInt16.ofInt n)
  | none => refuse [quoted field, ": invalid port ".toList, quoted v]

def parsePorts (t : LuaTable) (field : Text) : Parsed (List UInt16) := do
  (← getList t field).mapM (parsePort field)

def l4Names : List (Text × UInt8) :=
  [("tcp".toList, 6), ("udp".toList, 17), ("icmp".toList, 1), ("icmpv6".toList, 58), ("igmp".toList, 2),
    ("gre".toList, 47), ("esp".toList, 50), ("sctp".toList, 132)]

def strcasecmp (a b : Text) : Bool := a.map Char.toLower = b.map Char.toLower

def parseL4Value (v : Text) : Parsed UInt8 :=
  match toInt v 0 255 with
  | some n => .ok (UInt8.ofInt n)
  | none =>
    match l4Names.foldl (fun found e => if strcasecmp v e.1 then some e.2 else found) none with
    | some n => .ok n
    | none => refuse ["'l4_proto': unknown protocol ".toList, quoted v]

def parseL4 (t : LuaTable) : Parsed (List UInt8) := do
  (← getList t "l4_proto".toList).mapM parseL4Value

def parseL7Value (v : Text) : Parsed UInt16 :=
  match toInt v 0 65535 with
  | some n => .ok (UInt16.ofInt n)
  | none =>
    if getnDPIProtoByName v = 0 ∧ !strcasecmp v "Unknown".toList then
      refuse ["'l7_proto': unknown protocol ".toList, quoted v]
    else .ok (getnDPIProtoByName v)

def parseL7 (t : LuaTable) : Parsed (List UInt16) := do
  (← getList t "l7_proto".toList).mapM (parseL7Value getnDPIProtoByName)

structure Filter where
  cliIp : Option (AddressTree E)
  srvIp : Option (AddressTree E)
  ip : Option (AddressTree E)
  cliPort : List UInt16
  srvPort : List UInt16
  port : List UInt16
  l4Proto : List UInt8
  l7Proto : List UInt16
  empty : Bool

def Filter.unset : Filter E := ⟨none, none, none, [], [], [], [], [], true⟩

/-- Of a value that is a table. -/
def parseTable (t : LuaTable) : Parsed (Filter E) := do
  checkKeys t filterKeys "filter".toList
  let cliIp ← parseIPs E t "cli_ip".toList
  let srvIp ← parseIPs E t "srv_ip".toList
  let ip ← parseIPs E t "ip".toList
  let cliPort ← parsePorts t "cli_port".toList
  let srvPort ← parsePorts t "srv_port".toList
  let port ← parsePorts t "port".toList
  let l4Proto ← parseL4 t
  let l7Proto ← parseL7 getnDPIProtoByName t
  .ok ⟨cliIp, srvIp, ip, cliPort, srvPort, port, l4Proto, l7Proto,
    !(cliIp.isSome || srvIp.isSome || ip.isSome || cliPort ≠ [] || srvPort ≠ [] || port ≠ [] || l4Proto ≠ [] || l7Proto ≠ [])⟩

/-- The `filter` or the `exclude` of a definition. -/
inductive Side where
  | nil
  | table (t : LuaTable)
  | other

def named (what : Text) {α : Type} : Parsed α → Parsed α
  | .error (.refused err) => refuse [quoted what, ": ".toList, err]
  | x => x

def parse : Side → Parsed (Filter E)
  | .nil => .ok (.unset E)
  | .table t => parseTable E getnDPIProtoByName t
  | .other => refuse ["a table expected".toList]

structure Definition where
  filter : Side
  exclude : Side

structure Script where
  filter : Filter E
  exclude : Filter E

def load (d : Definition) : Parsed (Script E) := do
  let filter ← named "filter".toList (parse E getnDPIProtoByName d.filter)
  let exclude ← named "exclude".toList (parse E getnDPIProtoByName d.exclude)
  .ok ⟨filter, exclude⟩

end Fields

/-! ## Holding a flow against it -/

structure Flow where
  cliIp : Option IpAddress
  srvIp : Option IpAddress
  cliPort : UInt16
  srvPort : UInt16
  protocol : UInt8
  upperProtocol : UInt16
  lowerProtocol : UInt16

section Match

variable {E : Env}

/-- Of an address, in the tree of its family. -/
def matchIP (tree : AddressTree E) : Option IpAddress → Bool
  | some a =>
    match E.ptreeMatch (tree.getTree (Counts.isV4 a)) a.family a.bits a.width with
    | some (some _) => true
    | _ => false
  | none => false

def Filter.match_ (x : Filter E) (f : Flow) : Bool :=
  if x.empty then true
  else if x.l4Proto ≠ [] ∧ f.protocol ∉ x.l4Proto then false
  else if x.l7Proto ≠ [] ∧ f.upperProtocol ∉ x.l7Proto ∧ f.lowerProtocol ∉ x.l7Proto then false
  else if x.cliPort ≠ [] ∧ f.cliPort ∉ x.cliPort then false
  else if x.srvPort ≠ [] ∧ f.srvPort ∉ x.srvPort then false
  else if x.port ≠ [] ∧ f.cliPort ∉ x.port ∧ f.srvPort ∉ x.port then false
  else if x.cliIp.any fun tree => !matchIP tree f.cliIp then false
  else if x.srvIp.any fun tree => !matchIP tree f.srvIp then false
  else if x.ip.any fun tree => !matchIP tree f.cliIp && !matchIP tree f.srvIp then false
  else true

/-- Whether `run` calls the function of the script. -/
def Script.runs (s : Script E) (f : Flow) : Bool :=
  if !s.filter.match_ f || (!s.exclude.empty && s.exclude.match_ f) then false else true

end Match

/-! ## What is documented -/

section Documented

variable (E : Env) (getnDPIProtoByName : Text → UInt16)

/-- The values of a field, `none` where one is not a text. -/
def values (t : LuaTable) (field : Text) : List (Option Text) :=
  match lua_getfield t field with
  | .nil => []
  | .scalar s => [some s]
  | .table items _ => items
  | .other => [none]

def hasMore : LuaValue → Bool
  | .table _ more => more
  | _ => false

/-- An address or a network in CIDR notation: its family, and the bits that count. -/
inductive DocIp : Text → Bool → List Bool → Prop
  | host4 (a : Bits 32) : DocIp (intoaV4 a.val) true a.val
  | cidr4 (a : Bits 32) (n : ℕ) (h : n ≤ 32) : DocIp (intoaV4 a.val ++ '/' :: Nat.toDigits 10 n) true (a.val.take n)
  | host6 (s : Text) (a : Bits 128) (h : E.inetPton6 s = some a) : DocIp s false a.val
  | cidr6 (s : Text) (a : Bits 128) (h : E.inetPton6 s = some a) (n : ℕ) (hn : n ≤ 128) :
      DocIp (s ++ '/' :: Nat.toDigits 10 n) false (a.val.take n)

/-- A number is written with its digits. -/
def DocNumber (max : ℕ) (s : Text) (n : ℕ) : Prop := Lib.Decimal.readNat s = some n ∧ n ≤ max

def DocL4 (s : Text) (n : ℕ) : Prop := DocNumber 255 s n ∨ ∃ e ∈ l4Names, strcasecmp s e.1 ∧ n = e.2.toNat

/-- Only characters of numbers. -/
def Numeric (s : Text) : Prop := ∀ c ∈ s, isspace c ∨ c = '-' ∨ c = '+' ∨ c.isDigit

def DocL7 (s : Text) (n : ℕ) : Prop :=
  DocNumber 65535 s n ∨
    (¬ Numeric s ∧ '\x00' ∉ s ∧ (getnDPIProtoByName s ≠ 0 ∨ strcasecmp s "Unknown".toList) ∧ n = (getnDPIProtoByName s).toNat)

def DocField (t : LuaTable) (field : String) (doc : Text → Prop) : Prop :=
  hasMore (lua_getfield t field.toList) = false ∧ ∀ v ∈ values t field.toList, ∃ s, v = some s ∧ doc s

structure DocTable (t : LuaTable) : Prop where
  keys : ∀ e ∈ t, ∃ k ∈ filterKeys, e.1 = some k
  cliIp : DocField t "cli_ip" fun s => ∃ v4 w, DocIp E s v4 w
  srvIp : DocField t "srv_ip" fun s => ∃ v4 w, DocIp E s v4 w
  ip : DocField t "ip" fun s => ∃ v4 w, DocIp E s v4 w
  cliPort : DocField t "cli_port" fun s => ∃ n, DocNumber 65535 s n
  srvPort : DocField t "srv_port" fun s => ∃ n, DocNumber 65535 s n
  port : DocField t "port" fun s => ∃ n, DocNumber 65535 s n
  l4Proto : DocField t "l4_proto" fun s => ∃ n, DocL4 s n
  l7Proto : DocField t "l7_proto" fun s => ∃ n, DocL7 getnDPIProtoByName s n

def DocSide : Side → Prop
  | .nil => True
  | .table t => DocTable E getnDPIProtoByName t
  | .other => False

def Documented (d : Definition) : Prop :=
  DocSide E getnDPIProtoByName d.filter ∧ DocSide E getnDPIProtoByName d.exclude

/-! ### The flows that are wanted -/

/-- A network and an address of its family. -/
def Covers (v4 : Bool) (w : List Bool) (a : IpAddress) : Prop := v4 = Counts.isV4 a ∧ w <+: a.bits

/-- A field that is not set lets everything pass. -/
def Sat (t : LuaTable) (field : String) (P : Text → Prop) : Prop :=
  values t field.toList = [] ∨ ∃ s, some s ∈ values t field.toList ∧ P s

section Wanted

variable (ipOf : Text → Bool → List Bool → Prop) (f : Flow)

/-- `ipOf` is the network that a value stands for. -/
def HitIp (a : Option IpAddress) (s : Text) : Prop := ∃ b ∈ a, ∃ v4 w, ipOf s v4 w ∧ Covers v4 w b

structure Satisfies (t : LuaTable) : Prop where
  cliIp : Sat t "cli_ip" (HitIp ipOf f.cliIp)
  srvIp : Sat t "srv_ip" (HitIp ipOf f.srvIp)
  ip : Sat t "ip" fun s => HitIp ipOf f.cliIp s ∨ HitIp ipOf f.srvIp s
  cliPort : Sat t "cli_port" fun s => DocNumber 65535 s f.cliPort.toNat
  srvPort : Sat t "srv_port" fun s => DocNumber 65535 s f.srvPort.toNat
  port : Sat t "port" fun s => DocNumber 65535 s f.cliPort.toNat ∨ DocNumber 65535 s f.srvPort.toNat
  l4Proto : Sat t "l4_proto" fun s => DocL4 s f.protocol.toNat
  l7Proto : Sat t "l7_proto" fun s =>
    DocL7 getnDPIProtoByName s f.upperProtocol.toNat ∨ DocL7 getnDPIProtoByName s f.lowerProtocol.toNat

/-- Some field is set. -/
def Sets (t : LuaTable) : Prop := ∃ k ∈ filterKeys, values t k ≠ []

def Filtered : Side → Prop
  | .table t => Satisfies getnDPIProtoByName ipOf f t
  | _ => True

def Excluded : Side → Prop
  | .table t => Sets t ∧ Satisfies getnDPIProtoByName ipOf f t
  | _ => False

def Wanted (d : Definition) : Prop :=
  Filtered getnDPIProtoByName ipOf f d.filter ∧ ¬ Excluded getnDPIProtoByName ipOf f d.exclude

end Wanted

/-! ## What becomes of it -/

/-- A documented address is looked for among those of the family that a dot says, and nowhere if it scans as a MAC. -/
def Taken (s : Text) (v4 : Bool) (w : List Bool) : Prop :=
  (∃ v, DocIp E s v w) ∧ scanMac s = none ∧ v4 = decide ('.' ∈ s)

/-- An IPv6 address with a dot, and more bits than an IPv4 address has. -/
def TooLong (s : Text) : Prop := ∃ w, DocIp E s false w ∧ scanMac s = none ∧ '.' ∈ s ∧ 32 < w.length

def ipFields : List String := ["cli_ip", "srv_ip", "ip"]

def HasTooLong : Side → Prop
  | .table t => ∃ field ∈ ipFields, ∃ s, some s ∈ values t field.toList ∧ TooLong E s
  | _ => False

inductive Verdict where
  | read
  | refused
  | fault
  deriving DecidableEq

/-- The first that is not read decides. -/
def firstBad : List Verdict → Verdict
  | [] => .read
  | .read :: l => firstBad l
  | v :: _ => v

def keyVerdict : Option Text → Verdict
  | some k => if cut k ∈ filterKeys then .read else .refused
  | none => .refused

/-- `addAddress` reads a MAC address, or a rule whose bits the tree of its family has. -/
def ipVerdict (s : Text) : Verdict :=
  match scanMac s with
  | some _ => .read
  | none =>
    match Counts.ruleOf E s with
    | none => .refused
    | some (f, add, bits) => if (fillPrefix f add bits (if '.' ∈ s then 32 else 128)).isSome then .read else .fault

def numberVerdict (max : ℤ) (s : Text) : Verdict := if (toInt s 0 max).isSome then .read else .refused

def l4Verdict (s : Text) : Verdict :=
  if (toInt s 0 255).isSome ∨ ∃ e ∈ l4Names, strcasecmp s e.1 then .read else .refused

def l7Verdict (s : Text) : Verdict :=
  if (toInt s 0 65535).isSome ∨ getnDPIProtoByName s ≠ 0 ∨ strcasecmp s "Unknown".toList then .read else .refused

/-- First whether all values are texts, then each of them. -/
def fieldVerdicts (t : LuaTable) (field : String) (verdict : Text → Verdict) : List Verdict :=
  ((values t field.toList).map fun v => if v.isSome then .read else .refused) ++
    ((values t field.toList).filterMap id).map fun s => verdict (cut s)

/-- In the order of the code. -/
def verdicts : Side → List Verdict
  | .nil => []
  | .table t =>
    (t.map fun e => keyVerdict e.1) ++
      fieldVerdicts t "cli_ip" (ipVerdict E) ++ fieldVerdicts t "srv_ip" (ipVerdict E) ++ fieldVerdicts t "ip" (ipVerdict E) ++
      fieldVerdicts t "cli_port" (numberVerdict 65535) ++ fieldVerdicts t "srv_port" (numberVerdict 65535) ++
      fieldVerdicts t "port" (numberVerdict 65535) ++
      fieldVerdicts t "l4_proto" l4Verdict ++ fieldVerdicts t "l7_proto" (l7Verdict getnDPIProtoByName)
  | .other => [.refused]

/-! ## The law -/

/-- What the documentation asks for, on a definition and a flow. -/
structure Meets (d : Definition) (f : Flow) : Prop where
  documented : Documented E getnDPIProtoByName d → ∃ s, load E getnDPIProtoByName d = .ok s ∧
    (s.runs f ↔ Wanted getnDPIProtoByName (DocIp E) f d)
  other : ¬ Documented E getnDPIProtoByName d → ∃ err, load E getnDPIProtoByName d = .error (.refused err)

structure Ok (d : Definition) (f : Flow) : Prop where
  documented : Documented E getnDPIProtoByName d → ¬ HasTooLong E d.filter ∧ ¬ HasTooLong E d.exclude ∧
    (Wanted getnDPIProtoByName (Taken E) f d ↔ Wanted getnDPIProtoByName (DocIp E) f d)
  other : ¬ Documented E getnDPIProtoByName d →
    firstBad (verdicts E getnDPIProtoByName d.filter ++ verdicts E getnDPIProtoByName d.exclude) = .refused

/-- What `inet_pton` takes for an IPv6 address has colons, hexadecimal digits and dots. -/
structure Pton6 : Prop where
  colon : ∀ s a, E.inetPton6 s = some a → ':' ∈ s
  chars : ∀ s a, E.inetPton6 s = some a → ∀ c ∈ s, c = ':' ∨ c = '.' ∨ (digit 16 c).isSome

end Documented

end Ntopng.Flows.CustomScript
