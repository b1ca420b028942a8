/-
  Ntopng.Flows.TcpFlags — the TCP flags of a flow on a packet interface
  (`Flow::updateTcpFlags`, `Flow::calculateConnectionState`, src/Flow.cpp).

  Each direction keeps the flags its packets carried. From these a packet moves the
  connection state (`calculateConnectionState`), the counters of flows with a SYN, a RST or a
  FIN (`TcpFlowStats`), what the hosts are told for their alerts, and the three times of the
  handshake. `Flow::swap` exchanges the directions between two packets.

  The state is one flow. `tcpFlowStats` is what this flow has added to the counters of the
  interface. A packet brings its time, its flags and its direction.
-/

import Ntopng.Flows.Direction

namespace Ntopng.Flows.TcpFlags

open Ntopng.Lib.Run
open Ntopng.Flows.Direction (IPPROTO_TCP TH_SYN TH_ACK TCP_3WH_MASK)

def TH_FIN : UInt8 := 0x01
def TH_RST : UInt8 := 0x04
def TH_PUSH : UInt8 := 0x08

def isTCPFlagSet (tcpFlags flagToCheck : UInt8) : Bool := tcpFlags &&& flagToCheck != 0

/-! ## The connection state -/

inductive MinorConnState where
  | noState
  | s0
  | s1
  | sf
  | rej
  | s2
  | s3
  | rsto
  | rstr
  | rstos0
  | rstrh
  | sh
  | shr
  | oth
  deriving DecidableEq, Repr

inductive MajorConnState where
  | noState
  | attempted
  | established
  | closed
  deriving DecidableEq, Repr

def MinorConnState.major : MinorConnState → MajorConnState
  | .s0 | .rej | .rstos0 | .rstrh | .sh | .shr => .attempted
  | .oth | .s1 => .established
  | .sf | .s2 | .s3 | .rsto | .rstr => .closed
  | .noState => .noState

/-- What `calculateConnectionState` reads. -/
structure Conn where
  protocol : UInt8
  /-- Whether there was memory for the TCP part of the flow. -/
  tcp : Bool
  src2dstTcpFlags : UInt8
  dst2srcTcpFlags : UInt8
  currentCState : MinorConnState
  deriving DecidableEq, Repr

namespace Conn

variable (c : Conn)

def getMajorConnState : MajorConnState := c.currentCState.major

def isTCP : Bool := c.protocol == IPPROTO_TCP

def src (flag : UInt8) : Bool := isTCPFlagSet c.src2dstTcpFlags flag

def dst (flag : UInt8) : Bool := isTCPFlagSet c.dst2srcTcpFlags flag

def checkS1ConnState : Bool :=
  if !c.tcp then false
  else
    c.currentCState == .s1 ||
      (c.src TCP_3WH_MASK && c.dst TCP_3WH_MASK
        -- No FIN ACK from the client, no RST
        && !(c.src TH_FIN && c.src TH_ACK) && !c.src TH_RST && !c.dst TH_RST)

def connectionState (isCumulative : Bool) : MinorConnState :=
  let isS1 := c.currentCState == .s1 || isCumulative
  let isS2 := c.currentCState == .s2
  let isS3 := c.currentCState == .s3
  if !c.isTCP || !c.tcp then .noState
  else if c.src TH_SYN && !c.dst TH_SYN then
    if !c.dst TH_RST then
      if c.src TH_RST then .rstos0
      else if c.src TH_FIN then .sh
      else .s0
    else .rej
  else if c.dst TH_SYN && c.dst TH_ACK && c.dst TH_RST && !c.src TH_SYN then .rstrh
  else if c.dst TH_SYN && c.dst TH_ACK && c.dst TH_FIN && !c.src TH_SYN then .shr
  else if !c.src TH_SYN && !c.dst TH_SYN then .oth
  else if (isS1 || isS2 || isS3) && c.src TH_FIN && c.dst TH_FIN then .sf
  else if isS1 && c.src TH_FIN && !c.dst TH_FIN then .s2
  else if isS1 && !c.src TH_FIN && c.dst TH_FIN then .s3
  else if isS1 && c.src TH_RST then .rsto
  else if isS1 && c.dst TH_RST then .rstr
  else if c.checkS1ConnState then .s1
  else if c.currentCState != .noState then c.currentCState
  else .noState

def calculateConnectionState (isCumulative : Bool) : Conn :=
  { c with currentCState := c.connectionState isCumulative }

def cumulate (flags : UInt8) (src2dst : Bool) : Conn :=
  if src2dst then { c with src2dstTcpFlags := c.src2dstTcpFlags ||| flags }
  else { c with dst2srcTcpFlags := c.dst2srcTcpFlags ||| flags }

def swap : Conn := { c with src2dstTcpFlags := c.dst2srcTcpFlags, dst2srcTcpFlags := c.src2dstTcpFlags }

/-- The flags seen in any direction. -/
def seen : UInt8 := c.src2dstTcpFlags ||| c.dst2srcTcpFlags

end Conn

/-! ## The counters -/

structure TcpFlowStats where
  numSynFlows : Nat
  numEstablishedFlows : Nat
  numResetFlows : Nat
  numFinFlows : Nat
  deriving DecidableEq, Repr

def TcpFlowStats.incSyn (t : TcpFlowStats) : TcpFlowStats := { t with numSynFlows := t.numSynFlows + 1 }

def TcpFlowStats.incEstablished (t : TcpFlowStats) : TcpFlowStats :=
  { t with numEstablishedFlows := t.numEstablishedFlows + 1 }

def TcpFlowStats.incReset (t : TcpFlowStats) : TcpFlowStats := { t with numResetFlows := t.numResetFlows + 1 }

def TcpFlowStats.incFin (t : TcpFlowStats) : TcpFlowStats := { t with numFinFlows := t.numFinFlows + 1 }

/-- Packets of one direction with a flag, up to 255. -/
structure TCPStats where
  numSyn : UInt8
  numFin : UInt8
  numRst : UInt8
  deriving DecidableEq, Repr

def inc8bitNoOverflow (n : UInt8) : UInt8 := if n < 255 then n + 1 else n

def TCPStats.inc (t : TCPStats) (flags : UInt8) : TCPStats where
  numSyn := if flags &&& TH_SYN == TH_SYN then inc8bitNoOverflow t.numSyn else t.numSyn
  numFin := if flags &&& TH_FIN == TH_FIN then inc8bitNoOverflow t.numFin else t.numFin
  numRst := if flags &&& TH_RST == TH_RST then inc8bitNoOverflow t.numRst else t.numRst

/-- The alert counters of the peers and of their networks. -/
inductive AlertsCounter where
  | syn
  | synAck
  | rst
  | fin
  | finAck
  deriving DecidableEq, Repr

structure Timeval where
  sec : Int
  usec : Int
  deriving DecidableEq, Repr

structure State where
  conn : Conn
  cli2srv : TCPStats
  srv2cli : TCPStats
  twhOver : Bool
  synTime : Timeval
  synAckTime : Timeval
  ackTime : Timeval
  tcpFlowStats : TcpFlowStats
  /-- Counter, second and direction, in order. -/
  told : List (AlertsCounter × Int × Bool)
  deriving DecidableEq, Repr

inductive Ev where
  | packet (time : Timeval) (flags : UInt8) (src2dst : Bool)
  | swap
  deriving DecidableEq, Repr

namespace State

variable (s : State) (time : Timeval) (flags : UInt8) (src2dst : Bool)

def countPacket : State :=
  if src2dst then { s with cli2srv := s.cli2srv.inc flags } else { s with srv2cli := s.srv2cli.inc flags }

def tell (a : AlertsCounter) : State := { s with told := s.told ++ [(a, time.sec, src2dst)] }

def tellHandshake : State :=
  let flags3wh := flags &&& TCP_3WH_MASK
  let s := if flags3wh = TH_SYN then s.tell time src2dst .syn else s
  if flags3wh = TH_SYN ||| TH_ACK then s.tell time src2dst .synAck else s

def countSyn : State :=
  if flags &&& TH_SYN != 0 && s.conn.seen &&& TH_SYN != TH_SYN then
    { s with tcpFlowStats := s.tcpFlowStats.incSyn }
  else s

def countReset : State :=
  if flags &&& TH_RST != 0 && s.conn.seen &&& TH_RST != TH_RST then
    let s := { s with tcpFlowStats := s.tcpFlowStats.incReset }
    if s.conn.src2dstTcpFlags &&& TH_SYN != TH_SYN then s.tell time src2dst .rst else s
  else s

def countFin : State :=
  if flags &&& TH_FIN != 0 && s.conn.seen &&& TH_FIN != TH_FIN then
    { s.tell time src2dst .fin with tcpFlowStats := s.tcpFlowStats.incFin }
  else s

def countFinAck : State :=
  if flags &&& (TH_FIN ||| TH_ACK) != 0 && s.conn.seen &&& (TH_FIN ||| TH_ACK) != TH_FIN ||| TH_ACK then
    { s.tell time src2dst .finAck with tcpFlowStats := s.tcpFlowStats.incFin }
  else s

/-- The counters: all of them look at the flags before this packet's. -/
def count : State :=
  let s := s.countPacket flags src2dst
  let s := s.tellHandshake time flags src2dst
  let s := s.countSyn flags
  let s := s.countReset time flags src2dst
  let s := s.countFin time flags src2dst
  s.countFinAck time flags src2dst

def observeSyn : State := if s.conn.tcp && s.synTime.sec == 0 then { s with synTime := time } else s

def observeSynAck : State :=
  if s.conn.tcp && s.synAckTime.sec == 0 && 0 < s.synTime.sec then { s with synAckTime := time } else s

def observeAck : State :=
  if s.conn.tcp && s.ackTime.sec == 0 && 0 < s.synAckTime.sec then
    { s with ackTime := time, tcpFlowStats := s.tcpFlowStats.incEstablished }
  else s

def handshake : State :=
  let flags3wh := flags &&& TCP_3WH_MASK
  if s.twhOver then s
  else if flags3wh = TH_SYN then s.observeSyn time
  else if flags3wh = TH_SYN ||| TH_ACK then s.observeSynAck time
  -- With TCP Fast Open the last ACK may carry data and PSH
  else if flags3wh = TH_ACK ∨ flags3wh = TH_ACK ||| TH_PUSH then { s.observeAck time with twhOver := true }
  else { s with twhOver := true }

def track : State := { s with conn := (s.conn.cumulate flags src2dst).calculateConnectionState false }

def updateTcpFlags : State :=
  let s := s.count time flags src2dst
  let s := s.track flags src2dst
  s.handshake time flags

def swap : State :=
  let s := { s with conn := s.conn.swap }
  if s.conn.tcp then { s with cli2srv := s.srv2cli, srv2cli := s.cli2srv } else s

def init (tcp : Bool) : State where
  conn := ⟨IPPROTO_TCP, tcp, 0, 0, .noState⟩
  cli2srv := ⟨0, 0, 0⟩
  srv2cli := ⟨0, 0, 0⟩
  twhOver := false
  synTime := ⟨0, 0⟩
  synAckTime := ⟨0, 0⟩
  ackTime := ⟨0, 0⟩
  tcpFlowStats := ⟨0, 0, 0, 0⟩
  told := []

end State

def step (s : State) : Ev → State
  | .packet time flags src2dst => s.updateTcpFlags time flags src2dst
  | .swap => s.swap

/-- A TCP flow after the events; `tcp` tells whether there was memory for its TCP part. -/
def after (tcp : Bool) (es : List Ev) : State := run step (State.init tcp) es

end Ntopng.Flows.TcpFlags
