/-
  Ntopng.Flows.Direction — which peer of a flow is the client (src/Flow.cpp,
  src/NetworkInterface.cpp).

  A packet interface decides once: by the first SYN or SYN-ACK (`checkTCPDirection`), by the
  first request or reply (`checkL7Direction`), or by the default ports of the protocol, once
  it is detected (`checkDirectionByProtocol`). Until then the first packet makes a guess by
  the ports (`check_swap`). A swap is requested, and performed by the next packet of the flow
  or when the flow ends.

  The state is one flow from its first packet on; an event is a packet, the end of the
  dissection by `housekeep`, or the end of the flow. What nDPI makes of a packet is in the
  event. What the outside decides once (preferences, hosts and memory for the flow) is in
  `Env`.
-/

import Ntopng.Flows.Lookup

namespace Ntopng.Flows.Direction

open Ntopng.Lib.Run Ntopng.Lib.Bytes Ntopng.Flows.Lookup

def IPPROTO_ICMP : UInt8 := 1
def IPPROTO_TCP : UInt8 := 6
def IPPROTO_UDP : UInt8 := 17
def IPPROTO_ICMPV6 : UInt8 := 58

def TH_SYN : UInt8 := 0x02
def TH_ACK : UInt8 := 0x10

/-- Without ECE and CWR. -/
def TCP_3WH_MASK : UInt8 := 0x3F

def synSeen (flags : UInt8) : Bool := flags &&& TH_SYN == TH_SYN

/-- The guess of `check_swap`; the ports are in host byte order, `rdp` is what nDPI has detected. -/
def portsGuess (protocol src2dstTcpFlags : UInt8) (cliUnicast srvUnicast : Bool) (cliPort srvPort : UInt16) (rdp : Bool) :
    Bool :=
  if (protocol == IPPROTO_TCP && synSeen src2dstTcpFlags) || cliPort == 0 || srvPort == 0 then false
  else if !(cliUnicast && !srvUnicast) then
    if cliPort < srvPort then protocol != IPPROTO_UDP
    -- The port of RDP is above 1024
    else rdp && cliPort == 3389
  else false

/-! ## Requests and replies -/

/-- What nDPI calls the lower protocol. -/
inductive L7 where
  | dns
  | ntp
  | dhcp
  | dhcpv6
  | snmp
  | other
  deriving DecidableEq, Repr

def icmpReply (type : UInt8) : Option Bool :=
  if type ∈ ([8, 13, 15] : List UInt8) then some false
  else if type ∈ ([0, 14, 16] : List UInt8) then some true
  else none

def icmpv6Reply (type : UInt8) : Option Bool :=
  if type = 128 then some false else if type = 129 then some true else none

/-- Mode 3 or 4, the R bit of the control messages (6) or of the private ones (7). -/
def ntpReply (payload : List UInt8) : Option Bool :=
  let first := payload.getD 0 0
  let mode := first &&& 0x07
  if mode = 3 then some false
  else if mode = 4 then some true
  else if mode = 6 then if payload.length < 2 then none else some (payload.getD 1 0 &&& 0x80 != 0)
  else if mode = 7 then some (first &&& 0x80 != 0)
  else none

def dhcpReply (op : UInt8) : Option Bool :=
  if op = 1 then some false else if op = 2 then some true else none

def dhcpv6Reply (type : UInt8) : Option Bool :=
  if type ∈ ([1, 3, 4, 5, 6, 8, 9, 11, 12, 14, 18, 20, 36] : List UInt8) then some false
  else if type ∈ ([2, 7, 10, 13, 15, 19, 21, 37] : List UInt8) then some true
  else none

/-- What is decided elsewhere: the addresses that are not unicast, the default ports of nDPI, and `isSNMPReply`,
    which rests on its decoder. -/
structure Env where
  prefs : Lookup.Prefs
  outside : Outside
  isNonEmptyUnicastAddress : IpAddress → Bool
  isDefaultPort : UInt16 → UInt16 → Bool → Bool
  isSNMPReply : List UInt8 → UInt16 → Option Bool

variable (env : Env)

/-- Whether a payload is a reply, if it tells; `dstPort` is where it goes. -/
def isReply (protocol : UInt8) (l7 : L7) (payload : List UInt8) (dstPort : UInt16) : Option Bool :=
  let first := payload.getD 0 0
  if protocol = IPPROTO_ICMP then icmpReply first
  else if protocol = IPPROTO_ICMPV6 then icmpv6Reply first
  else if protocol = IPPROTO_UDP ∧ l7 = .dns then
    if payload.length < 12 then none else some (payload.getD 2 0 &&& 0x80 == 0x80)
  else
    match l7 with
    | .ntp => ntpReply payload
    | .dhcp => dhcpReply first
    | .dhcpv6 => dhcpv6Reply first
    | .snmp => env.isSNMPReply payload dstPort
    | _ => none

/-! ## The flow -/

structure State where
  flow : Lookup.Flow
  src2dstTcpFlags : UInt8
  dst2srcTcpFlags : UInt8
  directionDecided : Bool
  nonZeroPayloadObserved : Bool
  detectionCompleted : Bool

/-- What nDPI finds when the detection of a protocol ends: master and application protocol, and whether by DPI. -/
structure Detected where
  masterProtocol : UInt16
  appProtocol : UInt16
  byDpi : Bool

structure Arrival where
  packet : Lookup.Packet
  /-- The MACs of the hosts at the time. -/
  hostMac : HostId → Option Mac
  tcpFlags : UInt8
  payload : List UInt8
  /-- Fragments are not dissected, nor are the packets of a flow that needs no more of it. -/
  dissected : Bool
  /-- There is a flow of nDPI, with confidence DPI. -/
  byDpi : Bool
  l7 : L7
  /-- The detection ends with this packet. -/
  detected : Option Detected

namespace State

variable (d : State)

def cliPort : UInt16 := ntohs d.flow.cliPort
def srvPort : UInt16 := ntohs d.flow.srvPort

def unicast (a : Option IpAddress) : Bool := (a.map env.isNonEmptyUnicastAddress).getD false

def requestSwap : State :=
  if env.prefs.flowSwapHeuristic then { d with flow := { d.flow with swapRequested := true } } else d

/-- The part of `Flow::swap` that the direction depends on. -/
def swap : State :=
  if env.prefs.flowSwapHeuristic then
    { d with
      flow := d.flow.swap true
      src2dstTcpFlags := d.dst2srcTcpFlags
      dst2srcTcpFlags := d.src2dstTcpFlags }
  else d

def checkSwap (rdp : Bool) : State :=
  if env.prefs.flowSwapHeuristic then
    if portsGuess d.flow.protocol d.src2dstTcpFlags (unicast env d.flow.cliIpAddr) (unicast env d.flow.srvIpAddr)
        d.cliPort d.srvPort rdp then
      d.requestSwap env
    else d
  else d

def updateTcpFlags (flags : UInt8) (src2dstDirection : Bool) : State :=
  if src2dstDirection then { d with src2dstTcpFlags := d.src2dstTcpFlags ||| flags }
  else { d with dst2srcTcpFlags := d.dst2srcTcpFlags ||| flags }

/-- The sender of a SYN is the client, the sender of a SYN-ACK the server. -/
def sentByClient (tcpFlags : UInt8) : Option Bool :=
  if tcpFlags &&& TCP_3WH_MASK = TH_SYN then some true
  else if tcpFlags &&& TCP_3WH_MASK = TH_SYN ||| TH_ACK then some false
  else none

def checkTCPDirection (src2dstDirection : Bool) (tcpFlags : UInt8) (newFlow : Bool) : State :=
  if !env.prefs.flowSwapHeuristic || d.directionDecided then d
  else
    match sentByClient tcpFlags with
    -- nDPI has not seen a packet of the flow yet
    | none => if newFlow then d.checkSwap env false else d
    | some client =>
      let d := { d with directionDecided := true }
      if client != src2dstDirection then d.requestSwap env else d

def checkL7Direction (src2dstDirection : Bool) (a : Arrival) : State :=
  if !env.prefs.flowSwapHeuristic || a.payload.isEmpty || !a.byDpi then d
  else
    match isReply env d.flow.protocol a.l7 a.payload (if src2dstDirection then d.srvPort else d.cliPort) with
    | none => d
    | some reply =>
      let d := { d with directionDecided := true }
      if reply == src2dstDirection && unicast env d.flow.srvIpAddr then (d.requestSwap env).swap env else d

/-- The first of the two protocols with a default port on one side only: that side is the server. -/
def fixByPorts : List UInt16 → State
  | [] => d
  | p :: protos =>
    let tcp := d.flow.protocol == IPPROTO_TCP
    let cliDefault := env.isDefaultPort p d.cliPort tcp
    let srvDefault := env.isDefaultPort p d.srvPort tcp
    if cliDefault != srvDefault then
      if cliDefault != d.flow.swapRequested then
        if cliDefault then d.requestSwap env else { d with flow := { d.flow with swapRequested := false } }
      else d
    else fixByPorts protos

def checkDirectionByProtocol (p : Detected) : State :=
  let tcp := d.flow.protocol == IPPROTO_TCP
  if (d.flow.protocol != IPPROTO_TCP && d.flow.protocol != IPPROTO_UDP) || d.directionDecided ||
      !env.prefs.flowSwapHeuristic then d
  else if !tcp && !p.byDpi then d
  else
    let d := d.fixByPorts env [p.masterProtocol, p.appProtocol]
    if !tcp || d.nonZeroPayloadObserved then { d with directionDecided := true } else d

/-- `setProtocolDetectionCompleted`. -/
def completeDetection (p : Detected) : State :=
  if d.detectionCompleted then d else { d.checkDirectionByProtocol env p with detectionCompleted := true }

def observePayload (a : Arrival) : State :=
  { d with nonZeroPayloadObserved := d.nonZeroPayloadObserved || !a.payload.isEmpty }

/-- `Flow::processPacket`. -/
def dissect (src2dstDirection : Bool) (a : Arrival) : State :=
  let d := d.observePayload a
  let d := if d.directionDecided then d else d.checkL7Direction env src2dstDirection a
  match a.detected with
  | some p => d.completeDetection env p
  | none => d

/-- The packet has found its flow. -/
def process (src2dstDirection : Bool) (a : Arrival) (newFlow rdp : Bool) : State :=
  let d :=
    if d.flow.protocol = IPPROTO_TCP then
      (d.updateTcpFlags a.tcpFlags src2dstDirection).checkTCPDirection env src2dstDirection a.tcpFlags newFlow
    else if d.flow.protocol ∈ [IPPROTO_UDP, IPPROTO_ICMP, IPPROTO_ICMPV6] then d
    else if newFlow then d.checkSwap env rdp
    else d
  if a.dissected then d.dissect env src2dstDirection a else d

end State

/-! ## Events -/

/-- The table that a packet meets: only the flow is in it. -/
def table (a : Arrival) : Sys := { start 1 env.prefs with hostMac := a.hostMac }

/-- The direction of a packet of the flow, as `FlowHash::find` sees it. -/
def finds (d : State) (a : Arrival) : Option Bool :=
  if d.flow.idle then none else (table env a).equal d.flow a.packet

/-- The first packet; `rdp` is what nDPI makes of the L4 protocol, for others than TCP. -/
def create (a : Arrival) (rdp : Bool) : Option State :=
  if !env.outside.createIfMissing || !env.outside.emptyRoom || !env.outside.flowOk then none
  else
    let d : State :=
      { flow := newFlow a.packet env.outside, src2dstTcpFlags := 0, dst2srcTcpFlags := 0, directionDecided := false
        nonZeroPayloadObserved := false, detectionCompleted := false }
    some (d.process env true a true rdp)

/-- A later one performs the swap that is pending, and takes its direction from the ports. -/
def receive (d : State) (a : Arrival) : State :=
  match finds env d a with
  | none => d
  | some src2dst =>
    if d.flow.swapRequested then
      let d := d.swap env
      d.process env (ntohs a.packet.srcPort == d.cliPort && ntohs a.packet.dstPort == d.srvPort) a false false
    else d.process env src2dst a false false

inductive Ev where
  | packet (a : Arrival) (rdp : Bool)
  | endDissection (p : Detected)
  | performPendingSwap
  | idle

def step (s : Option State) (e : Ev) : Option State :=
  match s, e with
  | none, .packet a rdp => create env a rdp
  | none, _ => none
  | some d, .packet a _ => some (receive env d a)
  | some d, .endDissection p => some (d.completeDetection env p)
  | some d, .performPendingSwap => some (if d.flow.swapRequested then d.swap env else d)
  | some d, .idle => some { d with flow := { d.flow with idle := true } }

/-! ## What holds of a run -/

def decided (s : Option State) : Prop := ∃ d, s = some d ∧ d.directionDecided = true

def pending (s : Option State) : Prop := ∃ d, s = some d ∧ d.flow.swapRequested = true

/-- Address and port of the client. -/
def client (s : Option State) : Option (Option IpAddress × UInt16) := s.map fun d => (d.flow.cliIpAddr, d.flow.cliPort)

/-- A packet of the flow: its first one, or one that finds it. -/
def isOf (s : Option State) (a : Arrival) : Prop := ∀ d, s = some d → finds env d a ≠ none

/-- The sender of a SYN, or the receiver of a SYN-ACK. -/
def handshakeClient (a : Arrival) : Option (IpAddress × UInt16) :=
  if a.packet.protocol = IPPROTO_TCP then
    (State.sentByClient a.tcpFlags).map fun sentByClient =>
      if sentByClient then (a.packet.srcIp, a.packet.srcPort) else (a.packet.dstIp, a.packet.dstPort)
  else none

/-- Of a run: once decided the client is settled, and a handshake that decides has its own from the next packet on. -/
structure Law (es : List Ev) : Prop where
  settled : ∀ as bs cs, es = as ++ bs ++ cs → decided (run (step env) none as) → ¬ pending (run (step env) none as) →
    client (run (step env) (run (step env) none as) bs) = client (run (step env) none as)
  performed : ∀ as a rdp bs, es = as ++ .packet a rdp :: bs → decided (run (step env) none as) →
    isOf env (run (step env) none as) a → ¬ pending (step env (run (step env) none as) (.packet a rdp))
  handshake : ∀ as a rdp bs b rdp' cs ds ip, es = as ++ .packet a rdp :: (bs ++ .packet b rdp' :: (cs ++ ds)) →
    ¬ decided (run (step env) none as) → isOf env (run (step env) none as) a →
      decided (step env (run (step env) none as) (.packet a rdp)) → handshakeClient a = some ip →
        isOf env (run (step env) (step env (run (step env) none as) (.packet a rdp)) bs) b →
          client (run (step env) (step env (run (step env) (step env (run (step env) none as) (.packet a rdp)) bs)
            (.packet b rdp')) cs) = some (some ip.1, ip.2)

/-- Both peers have a host, or none has, unless an address is missing; no packet finds the flow then. -/
def Whole (f : Lookup.Flow) : Prop := f.cliIpAddr.isSome → f.srvIpAddr.isSome → f.cliHost.isSome = f.srvHost.isSome

instance (f : Lookup.Flow) : Decidable (Whole f) := inferInstanceAs (Decidable (_ → _ → _))

/-- The event performs the swap that is pending. -/
def performs (d : State) : Ev → Bool
  | .packet a _ => d.flow.swapRequested && (finds env d a).isSome
  | .performPendingSwap => d.flow.swapRequested
  | _ => false

/-- A swap that is pending is performed only between peers that can be exchanged. -/
def Sound : Option State → Ev → Prop
  | some d, e => performs env d e → Whole d.flow
  | none, _ => True

instance (s : Option State) (e : Ev) : Decidable (Sound env s e) :=
  match s with
  | some d => inferInstanceAs (Decidable (performs env d e → Whole d.flow))
  | none => isTrue trivial

end Ntopng.Flows.Direction
