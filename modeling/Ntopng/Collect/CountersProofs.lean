/-
  Ntopng.Collect.CountersProofs — flow and interface count what is due.

  The stages of `process` before and after `addFlowStats` leave the counters alone (`Leaves`),
  so a record adds its scaled counters to the flow, bytes only along with packets
  (`counter_process`), and to the interface what the gates of the interface let through
  (`total_process`). From this the step lemma `countsDue_step`, and the run.
-/

import Ntopng.Collect.Counters

namespace Ntopng.Collect

open Ntopng.Lib.Run Ntopng.Flows

section

variable {α : Type}

/-! ## The stages that do not count -/

/-- The counters and the addresses are left alone. -/
structure Leaves (a b : Swap.Flow α) : Prop where
  packets : b.stats.cli2srvPackets = a.stats.cli2srvPackets ∧ b.stats.srv2cliPackets = a.stats.srv2cliPackets
  bytes : b.stats.cli2srvBytes = a.stats.cli2srvBytes ∧ b.stats.srv2cliBytes = a.stats.srv2cliBytes
  hosts : b.cliHost = a.cliHost ∧ b.srvHost = a.srvHost
  addrs : b.cliIpAddr = a.cliIpAddr ∧ b.srvIpAddr = a.srvIpAddr

variable (env : Env α)

theorem Leaves.trans {a b c : Swap.Flow α} (hb : Leaves a b) (hc : Leaves b c) : Leaves a c where
  packets := ⟨hc.packets.1.trans hb.packets.1, hc.packets.2.trans hb.packets.2⟩
  bytes := ⟨hc.bytes.1.trans hb.bytes.1, hc.bytes.2.trans hb.bytes.2⟩
  hosts := ⟨hc.hosts.1.trans hb.hosts.1, hc.hosts.2.trans hb.hosts.2⟩
  addrs := ⟨hc.addrs.1.trans hb.addrs.1, hc.addrs.2.trans hb.addrs.2⟩

theorem Leaves.refl (a : Swap.Flow α) : Leaves a a := ⟨⟨rfl, rfl⟩, ⟨rfl, rfl⟩, ⟨rfl, rfl⟩, ⟨rfl, rfl⟩⟩

theorem leaves_ite {p : Prop} [Decidable p] {a b c : Swap.Flow α} (hb : Leaves a b) (hc : Leaves a c) :
    Leaves a (if p then b else c) := by
  split
  · exact hb
  · exact hc

theorem leaves_allocTCPStats (a : Swap.Flow α) (ok : Bool) : Leaves a (a.allocTCPStats ok) := by
  unfold Swap.Flow.allocTCPStats
  split
  · exact .refl a
  · exact leaves_ite ⟨⟨rfl, rfl⟩, ⟨rfl, rfl⟩, ⟨rfl, rfl⟩, ⟨rfl, rfl⟩⟩ (.refl a)

theorem leaves_setFlowRTT (f : Flow α) (tv : Swap.Timeval) (client : Bool) :
    Leaves f.acct (f.setFlowRTT env tv client).acct := by
  refine (leaves_allocTCPStats f.acct env.tcpAllocOk).trans ?_
  simp only [Flow.setFlowRTT]
  split
  · exact .refl _
  · split <;> exact .refl _

theorem leaves_setFlowTcpWindow (f : Flow α) (window : UInt16) (client : Bool) :
    Leaves f.acct (f.setFlowTcpWindow env window client).acct :=
  (leaves_allocTCPStats f.acct env.tcpAllocOk).trans ⟨⟨rfl, rfl⟩, ⟨rfl, rfl⟩, ⟨rfl, rfl⟩, ⟨rfl, rfl⟩⟩

theorem leaves_updateRTT (f : Flow α) (z : ParsedFlow) (dir : Bool) : Leaves f.acct (f.updateRTT env z dir).acct := by
  have hset : ∀ (g : Flow α) (tv : Swap.Timeval) (client : Bool),
      Leaves g.acct (if Timeval.nonzero tv then g.setFlowRTT env tv client else g).acct := by
    intro g tv client
    split
    · exact leaves_setFlowRTT env g tv client
    · exact .refl _
  exact (hset f _ _).trans (hset _ _ _)

theorem leaves_updateInfo (f : Flow α) (z : ParsedFlow) (dir : Bool) : Leaves f.acct (f.updateInfo env z dir).acct := by
  have hwindow : ∀ (g : Flow α) (window : UInt16) (client : Bool),
      Leaves g.acct (if window ≠ 0 then g.setFlowTcpWindow env window client else g).acct := by
    intro g window client
    split
    · exact leaves_setFlowTcpWindow env g window client
    · exact .refl _
  have htos : ∀ a : Swap.Flow α, Leaves a ((a.setTOS z.srcTos true).setTOS z.dstTos false) :=
    fun a => ⟨⟨rfl, rfl⟩, ⟨rfl, rfl⟩, ⟨rfl, rfl⟩, ⟨rfl, rfl⟩⟩
  have hlatency : ∀ g : Flow α, (g.updateApplLatency z dir).acct = g.acct := by
    intro g
    unfold Flow.updateApplLatency
    split <;> rfl
  simp only [Flow.updateInfo, hlatency]
  exact (((hwindow { f with endReason := z.endReason.or f.endReason } z.tcp.inWindow dir).trans
    (hwindow _ z.tcp.outWindow (!dir))).trans (htos _)).trans (leaves_allocTCPStats _ _)

theorem leaves_updateTcpFlags (a : Swap.Flow α) (flags : UInt8) (dir : Bool) :
    Leaves a (a.updateTcpFlags flags dir false) := by
  cases dir <;> exact ⟨⟨rfl, rfl⟩, ⟨rfl, rfl⟩, ⟨rfl, rfl⟩, ⟨rfl, rfl⟩⟩

theorem leaves_updateFlags (a : Swap.Flow α) (z : ParsedFlow) (dir : Bool) : Leaves a (updateFlags a z dir) := by
  have hflags : ∀ (p : Prop) [Decidable p] (b : Swap.Flow α) (flags : UInt8) (d : Bool),
      Leaves b (if p then b.updateTcpFlags flags d false else b) :=
    fun p _ b flags d => leaves_ite (leaves_updateTcpFlags b flags d) (.refl b)
  exact leaves_ite (((hflags _ a _ _).trans (hflags _ _ _ _)).trans (hflags _ _ _ _)) (.refl a)

theorem leaves_updateTcp (f : Flow α) (z : ParsedFlow) (dir : Bool) : Leaves f.acct (f.updateTcp z dir).acct := by
  unfold Flow.updateTcp
  split
  · exact (leaves_updateFlags f.acct z dir).trans ⟨⟨rfl, rfl⟩, ⟨rfl, rfl⟩, ⟨rfl, rfl⟩, ⟨rfl, rfl⟩⟩
  · exact .refl _

theorem leaves_setPeers (a : Swap.Flow α) (z : ParsedFlow) : Leaves a (setPeers a z) := by
  have hsrc : ∀ (b : Swap.Flow α) (v : UInt32), Leaves b (if v ≠ 0 then b.setSrcPeerAS v else b) := by
    intro b v
    refine leaves_ite ?_ (.refl b)
    exact leaves_ite ⟨⟨rfl, rfl⟩, ⟨rfl, rfl⟩, ⟨rfl, rfl⟩, ⟨rfl, rfl⟩⟩ (.refl b)
  have hdst : ∀ (b : Swap.Flow α) (v : UInt32), Leaves b (if v ≠ 0 then b.setDstPeerAS v else b) := by
    intro b v
    refine leaves_ite ?_ (.refl b)
    exact leaves_ite ⟨⟨rfl, rfl⟩, ⟨rfl, rfl⟩, ⟨rfl, rfl⟩, ⟨rfl, rfl⟩⟩ (.refl b)
  exact ((hsrc a _).trans (hdst _ _)).trans ⟨⟨rfl, rfl⟩, ⟨rfl, rfl⟩, ⟨rfl, rfl⟩, ⟨rfl, rfl⟩⟩

theorem leaves_detectProtocol (f : Flow α) (z : ParsedFlow) : Leaves f.acct (f.detectProtocol env z).1.acct := by
  unfold Flow.detectProtocol
  split
  · exact .refl _
  · exact leaves_setPeers f.acct _

theorem leaves_updateHR (a : Swap.Flow α) (z : ParsedFlow) (src2dst : Bool) (s : Option String) :
    Leaves a (updateHR a z src2dst s) := by
  unfold updateHR
  cases s with
  | none => exact .refl a
  | some s => cases src2dst <;> exact ⟨⟨rfl, rfl⟩, ⟨rfl, rfl⟩, ⟨rfl, rfl⟩, ⟨rfl, rfl⟩⟩

theorem leaves_updateHRBytes (f : Flow α) (z : ParsedFlow) : Leaves f.acct (f.updateHRBytes z).acct := by
  unfold Flow.updateHRBytes
  split <;> exact (leaves_updateHR f.acct z _ _).trans (leaves_updateHR _ z _ _)

/-! ## What a record adds -/

/-- A counter of the record, adjusted and scaled. -/
def sent (f : Flow α) (e : Received α) (c : Counter) (inSide : Bool) : UInt32 :=
  e.record.scale ((e.record.adjustAbsolute f e.src2dstDirection).counter c inSide)

theorem counter_adjustAbsolute (f : Flow α) (z : ParsedFlow) (dir : Bool) (c : Counter) (inSide : Bool) :
    (z.adjustAbsolute f dir).counter c inSide =
      if z.absolutePacketOctetCounters then absoluteToDelta (z.counter c inSide) (f.counter c (dir == inSide))
      else z.counter c inSide := by
  unfold ParsedFlow.adjustAbsolute
  split <;> cases c <;> cases inSide <;> cases dir <;> rfl

theorem sent_toNat (f : Flow α) (e : Received α) (c : Counter) (inSide : Bool) :
    (sent f e c inSide).toNat =
      (if e.record.absolutePacketOctetCounters then e.record.pktSamplingRate.toNat * sideNews f e c inSide
        else sideNews f e c inSide) % 2 ^ 32 := by
  unfold sent sideNews ParsedFlow.scale ParsedFlow.news
  rw [counter_adjustAbsolute, UInt32.toNat_mul]
  split
  · rw [absoluteToDelta_toNat]
    rfl
  · rfl

/-- What is sent on is what is due when the scaling is right. -/
theorem sent_eq_news_iff (f : Flow α) (e : Received α) (c : Counter) (inSide : Bool) :
    (sent f e c inSide).toNat = sideNews f e c inSide ↔
      e.record.Scales (e.record.counter c inSide).toNat (f.counter c (e.src2dstDirection == inSide)).toNat := by
  have hv := (e.record.counter c inSide).toNat_lt
  rw [sent_toNat]
  unfold sideNews ParsedFlow.news ParsedFlow.Scales
  split
  · rename_i habs
    rw [Nat.ModEq]
    rw [Nat.mod_eq_of_lt (a := _ - _) (by omega)]
  · omega

/-- A side without packets adds nothing, its bytes included. -/
theorem counter_addFlowStats (f : Flow α) (z : ParsedFlow) (dir inSide : Bool) :
    ((f.addFlowStats env z dir).counter .pkts (dir == inSide)).toNat =
        ((f.counter .pkts (dir == inSide)).toNat + (z.scale (z.counter .pkts inSide)).toNat) % 2 ^ 32 ∧
      ((f.addFlowStats env z dir).counter .bytes (dir == inSide)).toNat =
        ((f.counter .bytes (dir == inSide)).toNat +
          if (z.scale (z.counter .pkts inSide)).toNat = 0 then 0 else (z.scale (z.counter .bytes inSide)).toNat) %
          2 ^ 64 := by
  have hnum : ∀ v : UInt32, v.toNat = 0 ↔ v = 0 := fun v => ⟨fun h => UInt32.toNat_inj.mp h, fun h => by rw [h]; rfl⟩
  have hp := fun d => Nat.mod_eq_of_lt (f.counter .pkts d).toUInt32.toNat_lt
  have hb := fun d => Nat.mod_eq_of_lt (f.counter .bytes d).toNat_lt
  simp only [Flow.addFlowStats, Swap.Flow.addFlowStats, hnum]
  by_cases h0 : z.scale z.inBytes = 0 ∧ z.scale z.outBytes = 0 ∧ z.scale z.inPkts = 0 ∧ z.scale z.outPkts = 0
  · rw [if_pos h0]
    obtain ⟨-, -, hi, ho⟩ := h0
    cases inSide <;> cases dir <;>
      simp [ParsedFlow.counter, Flow.counter, Flow.getPackets, Flow.getBytes, hi, ho,
        Nat.mod_eq_of_lt (UInt32.toNat_lt _), Nat.mod_eq_of_lt (UInt64.toNat_lt _)]
  · rw [if_neg h0]
    by_cases hi : z.scale z.inPkts = 0 <;> by_cases ho : z.scale z.outPkts = 0 <;> cases inSide <;> cases dir <;>
      simp [ParsedFlow.counter, Flow.counter, Flow.getPackets, Flow.getBytes, hi, ho, Swap.FlowTrafficStats.incStats,
        PartializableFlowTrafficStats.incStats, Nat.mod_eq_of_lt (UInt32.toNat_lt _),
        Nat.mod_eq_of_lt (UInt64.toNat_lt _)]

theorem leaves_counter {f g : Flow α} (h : Leaves f.acct g.acct) (c : Counter) (cli2srv : Bool) :
    g.counter c cli2srv = f.counter c cli2srv := by
  cases c <;> cases cli2srv <;>
    simp only [Flow.counter, Flow.getPackets, Flow.getBytes, h.packets.1, h.packets.2, h.bytes.1, h.bytes.2]

theorem leaves_isLocalToRemote {f g : Flow α} (h : Leaves f.acct g.acct) :
    g.isLocalToRemote env = f.isLocalToRemote env := by
  simp only [Flow.isLocalToRemote, Flow.cliIp, Flow.srvIp, h.hosts.1, h.hosts.2, h.addrs.1, h.addrs.2]

/-- The record as it is when the counters are handed on. -/
def adjusted (f : Flow α) (e : Received α) : ParsedFlow :=
  (e.record.adjustAbsolute f e.src2dstDirection).doubleLatencies

/-- The flow just before the counters are handed on. -/
def prepared (f : Flow α) (e : Received α) : Flow α :=
  ((f.updateRTT e.env (adjusted f e) e.src2dstDirection).updateInfo e.env (adjusted f e) e.src2dstDirection).updateTcp
    (adjusted f e) e.src2dstDirection

theorem process_flow (f : Flow α) (i : EthStats) (e : Received α) :
    (process e.env f i e.src2dstDirection e.record).1 =
      let g := (prepared f e).addFlowStats e.env (adjusted f e) e.src2dstDirection
      (g.detectProtocol e.env (adjusted f e)).1.updateHRBytes
        ((g.detectProtocol e.env (adjusted f e)).2.setDirection e.env (g.detectProtocol e.env (adjusted f e)).1) := rfl

theorem leaves_prepared (f : Flow α) (e : Received α) : Leaves f.acct (prepared f e).acct :=
  ((leaves_updateRTT e.env f _ _).trans (leaves_updateInfo e.env _ _ _)).trans (leaves_updateTcp _ _ _)

theorem adjusted_counters (f : Flow α) (e : Received α) :
    (∀ c inSide, (adjusted f e).counter c inSide =
        (e.record.adjustAbsolute f e.src2dstDirection).counter c inSide) ∧
      (adjusted f e).scale = e.record.scale ∧ (adjusted f e).direction = e.record.direction := by
  refine ⟨fun c inSide => ?_, ?_⟩
  · cases c <;> cases inSide <;> rfl
  · unfold adjusted ParsedFlow.adjustAbsolute
    split <;> exact ⟨rfl, rfl⟩

theorem counter_process (f : Flow α) (i : EthStats) (e : Received α) (inSide : Bool) :
    ((process e.env f i e.src2dstDirection e.record).1.counter .pkts (e.src2dstDirection == inSide)).toNat =
        ((f.counter .pkts (e.src2dstDirection == inSide)).toNat + (sent f e .pkts inSide).toNat) % 2 ^ 32 ∧
      ((process e.env f i e.src2dstDirection e.record).1.counter .bytes (e.src2dstDirection == inSide)).toNat =
        ((f.counter .bytes (e.src2dstDirection == inSide)).toNat +
          if (sent f e .pkts inSide).toNat = 0 then 0 else (sent f e .bytes inSide).toNat) % 2 ^ 64 := by
  have hafter : ∀ g : Flow α, Leaves g.acct ((g.detectProtocol e.env (adjusted f e)).1.updateHRBytes
      ((g.detectProtocol e.env (adjusted f e)).2.setDirection e.env
        (g.detectProtocol e.env (adjusted f e)).1)).acct :=
    fun g => (leaves_detectProtocol e.env g _).trans (leaves_updateHRBytes _ _)
  have hsent : ∀ c, (adjusted f e).scale ((adjusted f e).counter c inSide) = sent f e c inSide := by
    intro c
    rw [(adjusted_counters f e).1, (adjusted_counters f e).2.1]
    rfl
  rw [process_flow]
  simp only [leaves_counter (hafter _)]
  rw [← leaves_counter (leaves_prepared f e) .pkts, ← leaves_counter (leaves_prepared f e) .bytes, ← hsent .pkts,
    ← hsent .bytes]
  exact counter_addFlowStats e.env (prepared f e) (adjusted f e) e.src2dstDirection inSide

/-! ## What a record adds to the interface -/

theorem total_addRecord (i : EthStats) (z : ParsedFlow) (c : Counter) :
    (i.addRecord z).total c =
      i.total c + (if z.counter .pkts true ≠ 0 then (z.scale (z.counter c true)).toNat else 0) +
        if z.counter (if z.direction ≠ 0 then .bytes else .pkts) false ≠ 0 then (z.scale (z.counter c false)).toNat
        else 0 := by
  have hpkts : ∀ (j : EthStats) (ingress : Bool) (p b : UInt32),
      (j.incStats ingress p b).total .pkts = j.total .pkts + p.toNat := by
    intro j ingress p b
    cases ingress <;> simp only [EthStats.incStats, EthStats.total, if_true, if_false, Bool.false_eq_true] <;> omega
  have hbytes : ∀ (j : EthStats) (ingress : Bool) (p b : UInt32),
      (j.incStats ingress p b).total .bytes = j.total .bytes + b.toNat := by
    intro j ingress p b
    cases ingress <;> simp only [EthStats.incStats, EthStats.total, if_true, if_false, Bool.false_eq_true] <;> omega
  unfold EthStats.addRecord
  by_cases hd : z.direction = 0
  · by_cases hi : z.inPkts = 0 <;> by_cases ho : z.outPkts = 0 <;> cases c <;>
      simp [hd, hi, ho, hpkts, hbytes, ParsedFlow.counter]
  · by_cases hi : z.inPkts = 0 <;> by_cases ho : z.outBytes = 0 <;> cases c <;>
      simp [hd, hi, ho, hpkts, hbytes, ParsedFlow.counter] <;> omega

theorem detectProtocol_counters (f : Flow α) (z : ParsedFlow) :
    (∀ c inSide, (f.detectProtocol env z).2.counter c inSide = z.counter c inSide) ∧
      (f.detectProtocol env z).2.scale = z.scale ∧ (f.detectProtocol env z).2.direction = z.direction := by
  unfold Flow.detectProtocol
  split
  · exact ⟨fun _ _ => rfl, rfl, rfl⟩
  · refine ⟨fun c inSide => ?_, rfl, rfl⟩
    cases c <;> cases inSide <;> rfl

theorem setDirection_counters (z : ParsedFlow) (f : Flow α) :
    (∀ c inSide, (z.setDirection env f).counter c inSide = z.counter c inSide) ∧
      (z.setDirection env f).scale = z.scale := by
  unfold ParsedFlow.setDirection
  split
  · refine ⟨fun c inSide => ?_, rfl⟩
    cases c <;> cases inSide <;> rfl
  · exact ⟨fun _ _ => rfl, rfl⟩

theorem direction_setDirection (z : ParsedFlow) (f : Flow α) :
    (z.setDirection env f).direction =
      if z.direction = unknownFlowDirection then (if f.isLocalToRemote env then 1 else 0) else z.direction := by
  unfold ParsedFlow.setDirection
  split <;> rfl

/-- The interface counts a side of the record. -/
def counted (f : Flow α) (e : Received α) (inSide : Bool) : Prop :=
  let gate := if (e.record.setDirection e.env f).direction ≠ 0 ∧ inSide = false then Counter.bytes else Counter.pkts
  (e.record.adjustAbsolute f e.src2dstDirection).counter gate inSide ≠ 0

instance counted_decidable (f : Flow α) (e : Received α) (inSide : Bool) : Decidable (counted f e inSide) := by
  unfold counted
  infer_instance

theorem process_iface (f : Flow α) (i : EthStats) (e : Received α) :
    (process e.env f i e.src2dstDirection e.record).2.1 =
      let g := (prepared f e).addFlowStats e.env (adjusted f e) e.src2dstDirection
      i.addRecord ((g.detectProtocol e.env (adjusted f e)).2.setDirection e.env (g.detectProtocol e.env (adjusted f e)).1) :=
  rfl

theorem isLocalToRemote_addFlowStats (f : Flow α) (z : ParsedFlow) (dir : Bool) :
    (f.addFlowStats env z dir).isLocalToRemote env = f.isLocalToRemote env := by
  simp only [Flow.addFlowStats, Swap.Flow.addFlowStats]
  split
  · rfl
  · cases dir <;> rfl

theorem total_process (f : Flow α) (i : EthStats) (e : Received α) (c : Counter) :
    (process e.env f i e.src2dstDirection e.record).2.1.total c =
      i.total c + (if counted f e true then (sent f e c true).toNat else 0) +
        if counted f e false then (sent f e c false).toNat else 0 := by
  rw [process_iface]
  dsimp only
  generalize hg : (prepared f e).addFlowStats e.env (adjusted f e) e.src2dstDirection = g
  have hlocal : (g.detectProtocol e.env (adjusted f e)).1.isLocalToRemote e.env = f.isLocalToRemote e.env := by
    rw [leaves_isLocalToRemote e.env (leaves_detectProtocol e.env g _), ← hg, isLocalToRemote_addFlowStats,
      leaves_isLocalToRemote e.env (leaves_prepared f e)]
  obtain ⟨hc, hs, hd⟩ := detectProtocol_counters e.env g (adjusted f e)
  obtain ⟨hc', hs'⟩ := setDirection_counters e.env (g.detectProtocol e.env (adjusted f e)).2
    (g.detectProtocol e.env (adjusted f e)).1
  obtain ⟨ha, has, had⟩ := adjusted_counters f e
  have hdir : ((g.detectProtocol e.env (adjusted f e)).2.setDirection e.env
      (g.detectProtocol e.env (adjusted f e)).1).direction = (e.record.setDirection e.env f).direction := by
    rw [direction_setDirection, direction_setDirection, hlocal, hd, had]
  rw [total_addRecord, hdir]
  simp only [hc', hs', hc, hs, ha, has, counted, sent]
  simp

/-! ## One step -/

theorem sideNews_eq (f : Flow α) (e : Received α) (c : Counter) (inSide : Bool) :
    sideNews f e c inSide =
      (if e.record.absolutePacketOctetCounters then 1 else e.record.pktSamplingRate.toNat) *
        ((e.record.adjustAbsolute f e.src2dstDirection).counter c inSide).toNat := by
  unfold sideNews ParsedFlow.news
  rw [counter_adjustAbsolute]
  split
  · rw [absoluteToDelta_toNat, Nat.one_mul]
  · rfl

/-- Nothing is sent on when nothing is due. -/
theorem sent_eq_zero {f : Flow α} {e : Received α} {c : Counter} {inSide : Bool} (h : sideNews f e c inSide = 0) :
    (sent f e c inSide).toNat = 0 := by
  rw [sent_toNat, h]
  simp

theorem due_cons (e : Received α) (earlier : List (Received α)) (c : Counter) (inSide : Bool) :
    due c (e.src2dstDirection == inSide) (e :: earlier) =
      due c (e.src2dstDirection == inSide) earlier +
        e.record.news (e.record.counter c inSide).toNat (due c (e.src2dstDirection == inSide) earlier) := by
  have hside : (e.src2dstDirection == (e.src2dstDirection == inSide)) = inSide := by
    cases e.src2dstDirection <;> cases inSide <;> rfl
  unfold ParsedFlow.news
  simp only [due, hside]
  split
  · omega
  · rfl

/-- The flow is right about a side after the record when the side is in order. -/
theorem side_iff {s : Sys α} (h : CountsDue s) (e : Received α) (inSide : Bool) :
    (∀ c, ((step s e).flow.counter c (e.src2dstDirection == inSide)).toNat =
        due c (e.src2dstDirection == inSide) (step s e).received) ↔
      SideOk e.record (fun c => (s.flow.counter c (e.src2dstDirection == inSide)).toNat)
        fun c => (e.record.counter c inSide).toNat := by
  obtain ⟨hp, hb⟩ := counter_process s.flow s.iface e inSide
  have hcur : ∀ c, due c (e.src2dstDirection == inSide) (step s e).received =
      (s.flow.counter c (e.src2dstDirection == inSide)).toNat + sideNews s.flow e c inSide := by
    intro c
    rw [h.flow c]
    exact (due_cons e s.received c inSide).trans (by rw [sideNews, h.flow c])
  have hall : (∀ c, ((step s e).flow.counter c (e.src2dstDirection == inSide)).toNat =
        due c (e.src2dstDirection == inSide) (step s e).received) ↔
      ((s.flow.counter .pkts (e.src2dstDirection == inSide)).toNat + (sent s.flow e .pkts inSide).toNat) % 2 ^ 32 =
          (s.flow.counter .pkts (e.src2dstDirection == inSide)).toNat + sideNews s.flow e .pkts inSide ∧
        ((s.flow.counter .bytes (e.src2dstDirection == inSide)).toNat +
            if (sent s.flow e .pkts inSide).toNat = 0 then 0 else (sent s.flow e .bytes inSide).toNat) % 2 ^ 64 =
          (s.flow.counter .bytes (e.src2dstDirection == inSide)).toNat + sideNews s.flow e .bytes inSide := by
    rw [← hp, ← hb, ← hcur .pkts, ← hcur .bytes]
    exact ⟨fun hc => ⟨hc .pkts, hc .bytes⟩, fun hc c => by cases c; exacts [hc.1, hc.2]⟩
  have hP := sent_eq_news_iff s.flow e .pkts inSide
  have hB := sent_eq_news_iff s.flow e .bytes inSide
  have hpl : (s.flow.counter .pkts (e.src2dstDirection == inSide)).toNat < 2 ^ 32 := by
    cases e.src2dstDirection == inSide <;> exact UInt32.toNat_lt _
  have hbl := (s.flow.counter .bytes (e.src2dstDirection == inSide)).toNat_lt
  have hsp := (sent s.flow e .pkts inSide).toNat_lt
  have hsb := (sent s.flow e .bytes inSide).toNat_lt
  rw [hall]
  constructor
  · rintro ⟨h1, h2⟩
    have hsent : (sent s.flow e .pkts inSide).toNat = sideNews s.flow e .pkts inSide := by omega
    rw [hsent] at h2
    refine ⟨⟨hP.mp hsent, ?_⟩, ?_⟩
    · change _ + sideNews s.flow e .pkts inSide < _
      omega
    · change if sideNews s.flow e .pkts inSide = 0 then sideNews s.flow e .bytes inSide = 0 else
        _ ∧ _ + sideNews s.flow e .bytes inSide < _
      split
      · rename_i h0
        rw [if_pos h0] at h2
        omega
      · rename_i h0
        rw [if_neg h0] at h2
        exact ⟨hB.mp (by omega), by omega⟩
  · rintro ⟨⟨h1, h1'⟩, h2⟩
    have hsent := hP.mpr h1
    change _ + sideNews s.flow e .pkts inSide < _ at h1'
    change if sideNews s.flow e .pkts inSide = 0 then sideNews s.flow e .bytes inSide = 0 else
      _ ∧ _ + sideNews s.flow e .bytes inSide < _ at h2
    rw [hsent]
    refine ⟨by omega, ?_⟩
    split at h2
    · rename_i h0
      rw [if_pos h0, h2]
      omega
    · rename_i h0
      rw [if_neg h0, hB.mpr h2.1]
      omega

/-- What a record adds to a counter of the flow. -/
def added (f : Flow α) (e : Received α) (inSide : Bool) : Counter → Nat
  | .pkts => (sent f e .pkts inSide).toNat
  | .bytes => if (sent f e .pkts inSide).toNat = 0 then 0 else (sent f e .bytes inSide).toNat

theorem counted_eq_added {f : Flow α} {e : Received α} {inSide : Bool}
    (hp : counted f e inSide ∨ (sent f e .pkts inSide).toNat = 0)
    (hb : counted f e inSide → (sent f e .pkts inSide).toNat = 0 → (sent f e .bytes inSide).toNat = 0) (c : Counter) :
    (if counted f e inSide then (sent f e c inSide).toNat else 0) = added f e inSide c := by
  unfold added
  by_cases hc : counted f e inSide
  · rw [if_pos hc]
    cases c with
    | pkts => rfl
    | bytes =>
      dsimp only
      split
      · rename_i h0
        exact hb hc h0
      · rfl
  · rw [if_neg hc]
    have h0 := hp.resolve_left hc
    cases c with
    | pkts => exact h0.symm
    | bytes => simp only [h0, if_true]

/-- The interface is told of a side what the flow is told, but for the way out of a TX record. -/
theorem counted_iff {f : Flow α} {e : Received α} {inSide : Bool} (hs : SideOk e.record
      (fun c => (f.counter c (e.src2dstDirection == inSide)).toNat) fun c => (e.record.counter c inSide).toNat) :
    (∀ c, (if counted f e inSide then (sent f e c inSide).toNat else 0) = added f e inSide c) ↔
      ((e.record.setDirection e.env f).direction ≠ 0 ∧ inSide = false →
        sideNews f e .bytes inSide = 0 → sideNews f e .pkts inSide = 0) := by
  have hsent : (sent f e .pkts inSide).toNat = sideNews f e .pkts inSide :=
    (sent_eq_news_iff f e .pkts inSide).mpr hs.pkts.1
  have hbytes : sideNews f e .pkts inSide = 0 → sideNews f e .bytes inSide = 0 := by
    intro h0
    have hb := hs.bytes
    rwa [if_pos (show e.record.news _ _ = 0 from h0)] at hb
  have hzero : ∀ c, (e.record.adjustAbsolute f e.src2dstDirection).counter c inSide = 0 → sideNews f e c inSide = 0 := by
    intro c h0
    rw [sideNews_eq, h0]
    exact Nat.mul_zero _
  have hsilent : (sent f e .pkts inSide).toNat = 0 → (sent f e .bytes inSide).toNat = 0 :=
    fun h0 => sent_eq_zero (hbytes (hsent ▸ h0))
  by_cases htx : (e.record.setDirection e.env f).direction ≠ 0 ∧ inSide = false
  · have hc : counted f e inSide ↔ (e.record.adjustAbsolute f e.src2dstDirection).counter .bytes inSide ≠ 0 := by
      simp only [counted, if_pos htx]
    constructor
    · intro hall _ hb0
      by_cases hcs : counted f e inSide
      · -- the bytes are there, but the rate is 0
        have hrate := (sideNews_eq f e .bytes inSide).symm.trans hb0
        rcases Nat.mul_eq_zero.mp hrate with h0 | h0
        · rw [sideNews_eq, h0]
          exact Nat.zero_mul _
        · exact absurd (UInt32.toNat_inj.mp h0) (hc.mp hcs)
      · have h := hall .pkts
        rw [if_neg hcs] at h
        exact hsent ▸ h.symm
    · intro h
      refine counted_eq_added ?_ fun _ => hsilent
      by_cases hcs : counted f e inSide
      · exact .inl hcs
      · refine .inr (hsent.trans (h htx (hzero .bytes ?_)))
        exact Classical.not_not.mp fun hne => hcs (hc.mpr hne)
  · have hc : counted f e inSide ↔ (e.record.adjustAbsolute f e.src2dstDirection).counter .pkts inSide ≠ 0 := by
      simp only [counted, if_neg htx]
    refine ⟨fun _ h => absurd h htx, fun _ => counted_eq_added ?_ fun _ => hsilent⟩
    by_cases hcs : counted f e inSide
    · exact .inl hcs
    · refine .inr (hsent.trans (hzero .pkts ?_))
      exact Classical.not_not.mp fun hne => hcs (hc.mpr hne)

/-- What the flow has gained is what was added, when the side is in order. -/
theorem counter_step {s : Sys α} {e : Received α} {inSide : Bool} (hs : SideOk e.record
      (fun c => (s.flow.counter c (e.src2dstDirection == inSide)).toNat) fun c => (e.record.counter c inSide).toNat)
    (c : Counter) :
    ((step s e).flow.counter c (e.src2dstDirection == inSide)).toNat =
      (s.flow.counter c (e.src2dstDirection == inSide)).toNat + added s.flow e inSide c := by
  obtain ⟨hp, hb⟩ := counter_process s.flow s.iface e inSide
  have hsent : (sent s.flow e .pkts inSide).toNat = sideNews s.flow e .pkts inSide :=
    (sent_eq_news_iff s.flow e .pkts inSide).mpr hs.pkts.1
  cases c with
  | pkts =>
    have hfits : _ + sideNews s.flow e .pkts inSide < 2 ^ 32 := hs.pkts.2
    refine hp.trans (Nat.mod_eq_of_lt ?_)
    omega
  | bytes =>
    have hbl := (s.flow.counter .bytes (e.src2dstDirection == inSide)).toNat_lt
    refine hb.trans (Nat.mod_eq_of_lt ?_)
    split
    · exact hbl
    · rename_i h0
      have hbytes := hs.bytes
      rw [if_neg (show e.record.news _ _ ≠ 0 from fun h => h0 (hsent.trans h))] at hbytes
      rw [(sent_eq_news_iff s.flow e .bytes inSide).mpr hbytes.1]
      exact hbytes.2

/-- Both directions of the flow are both sides of the record. -/
theorem sum_sides (g : Bool → Nat) (dir : Bool) : g true + g false = g (dir == true) + g (dir == false) := by
  cases dir
  · exact Nat.add_comm _ _
  · rfl

/-- The interface keeps up with the flow when it is told of both sides what the flow is told. -/
theorem iface_step_iff {s : Sys α} (h : CountsDue s) {e : Received α} (hs : ∀ inSide, SideOk e.record
      (fun c => (s.flow.counter c (e.src2dstDirection == inSide)).toNat) fun c => (e.record.counter c inSide).toNat)
    (c : Counter) :
    (step s e).iface.total c = ((step s e).flow.counter c true).toNat + ((step s e).flow.counter c false).toNat ↔
      (if counted s.flow e false then (sent s.flow e c false).toNat else 0) = added s.flow e false c := by
  have htotal : (step s e).iface.total c = _ := total_process s.flow s.iface e c
  have hin := (counted_iff (hs true)).mpr (fun htx => by cases htx.2) c
  have hsum := sum_sides (fun d => (s.flow.counter c d).toNat) e.src2dstDirection
  have hbefore := h.iface c
  rw [htotal, hin, sum_sides (fun d => ((step s e).flow.counter c d).toNat) e.src2dstDirection,
    counter_step (hs true), counter_step (hs false)]
  omega

/-- A record keeps the counts as they are due exactly when it meets the condition. -/
theorem countsDue_step {s : Sys α} (h : CountsDue s) (e : Received α) : CountsDue (step s e) ↔ Ok s e := by
  have hsides : (∀ c cli2srv, ((step s e).flow.counter c cli2srv).toNat = due c cli2srv (step s e).received) ↔
      ∀ inSide, SideOk e.record (fun c => (s.flow.counter c (e.src2dstDirection == inSide)).toNat)
        fun c => (e.record.counter c inSide).toNat := by
    constructor
    · intro hflow inSide
      exact (side_iff h e inSide).mp fun c => hflow c _
    · intro hs c cli2srv
      have hd : (e.src2dstDirection == (e.src2dstDirection == cli2srv)) = cli2srv := by
        cases e.src2dstDirection <;> cases cli2srv <;> rfl
      exact hd ▸ (side_iff h e (e.src2dstDirection == cli2srv)).mpr (hs _) c
  have hout := @counted_iff α s.flow e false
  constructor
  · intro h'
    have hs := hsides.mp h'.flow
    refine ⟨hs, fun htx => (hout (hs false)).mp (fun c => ?_) ⟨htx, rfl⟩⟩
    exact (iface_step_iff h hs c).mp (h'.iface c)
  · intro hok
    refine ⟨hsides.mpr hok.sides, fun c => (iface_step_iff h hok.sides c).mpr ?_⟩
    exact (hout (hok.sides false)).mpr (fun htx => hok.tx htx.1) c

/-! ## The run -/

theorem countsDue_start (f : Flow α) : CountsDue (start f) where
  flow := fun c cli2srv => by cases c <;> cases cli2srv <;> rfl
  iface := fun c => by cases c <;> rfl

/-- Flow and interface have what is due in every state of a run exactly when every record of it meets the condition. -/
theorem counts_due_iff (f : Flow α) (es : List (Received α)) :
    Always step CountsDue (start f) es ↔ Along step Ok (start f) es :=
  always_iff_along step (fun _ e h hok => (countsDue_step h e).mpr hok) (fun _ h => h)
    (fun _ e h hbad hp => hbad ((countsDue_step h e).mp hp)) (countsDue_start f)

end

/-- A record of a flow that it begins. -/
def first (z : ParsedFlow) : Received Unit := ⟨plainEnv .other, true, z⟩

def afterFirst (z : ParsedFlow) : Sys Unit := step (start (newFlow () z)) (first z)

/-- A TX record with packets and no bytes on its way out: the interface misses 5 packets that the flow has. -/
def txWithoutBytes : ParsedFlow := { ParsedFlow.init with direction := 1, inPkts := 3, inBytes := 300, outPkts := 5 }

/-- A record of 1000 bytes without packets: nobody has them. -/
def bytesWithoutPackets : ParsedFlow := { ParsedFlow.init with inBytes := 1000 }

/-- An absolute record of 10 packets, one in two: the flow has 20. -/
def sampledAbsolute : ParsedFlow :=
  { ParsedFlow.init with absolutePacketOctetCounters := true, pktSamplingRate := 2, inPkts := 10, inBytes := 1000 }

/-- A flow and its interface do not always have what is due. -/
theorem not_counts_due :
    ¬ (∀ (f : Flow Unit) (es : List (Received Unit)), Always step CountsDue (start f) es) ∧
      ((afterFirst txWithoutBytes).iface.total .pkts = 3 ∧ due .pkts false [first txWithoutBytes] = 5 ∧
        (afterFirst txWithoutBytes).flow.counter .pkts false = 5) ∧
      ((afterFirst bytesWithoutPackets).flow.counter .bytes true = 0 ∧ due .bytes true [first bytesWithoutPackets] = 1000) ∧
      ((afterFirst sampledAbsolute).flow.counter .pkts true = 20 ∧ due .pkts true [first sampledAbsolute] = 10) := by
  refine ⟨fun h => ?_, by decide, by decide, by decide⟩
  have hlast := (h (newFlow () bytesWithoutPackets) [first bytesWithoutPackets]).2.flow .bytes true
  revert hlast
  decide

end Ntopng.Collect
