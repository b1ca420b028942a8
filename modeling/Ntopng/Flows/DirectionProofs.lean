/-
  Ntopng.Flows.DirectionProofs — the client of a flow settles (src/Flow.cpp,
  src/NetworkInterface.cpp).

  Proved (`law_of_sound`): a decided direction is final but for the swap that is pending, which
  the next packet performs, and a handshake that decides has its own client from the next packet
  on, in every run that performs no pending swap while only one of the peers has a host.
  `Flow::swap` then exchanges the ports and not the addresses (`not_law`).
-/

import Mathlib
import Ntopng.Flows.LookupProofs
import Ntopng.Flows.Direction

namespace Ntopng.Flows.Direction

open Ntopng.Lib.Run Ntopng.Lib.Bytes Ntopng.Flows.Lookup

variable {env : Env} {d : State}

/-! ## A decided flow -/

theorem completeDetection_decided (h : d.directionDecided = true) (p : Detected) :
    (d.completeDetection env p).flow = d.flow ∧ (d.completeDetection env p).directionDecided = true := by
  have hcheck : d.checkDirectionByProtocol env p = d := by
    unfold State.checkDirectionByProtocol
    rw [if_pos (by simp [h])]
  unfold State.completeDetection
  rw [hcheck]
  split
  · exact ⟨rfl, h⟩
  · exact ⟨rfl, h⟩

theorem dissect_decided (h : d.directionDecided = true) (dir : Bool) (a : Arrival) :
    (d.dissect env dir a).flow = d.flow ∧ (d.dissect env dir a).directionDecided = true := by
  have hobserve : (d.observePayload a).directionDecided = true := h
  unfold State.dissect
  dsimp only
  rw [if_pos hobserve]
  cases a.detected with
  | none => exact ⟨rfl, h⟩
  | some p => exact completeDetection_decided hobserve p

theorem updateTcpFlags_same (d : State) (flags : UInt8) (dir : Bool) :
    (d.updateTcpFlags flags dir).flow = d.flow ∧
      (d.updateTcpFlags flags dir).directionDecided = d.directionDecided := by
  unfold State.updateTcpFlags
  split <;> exact ⟨rfl, rfl⟩

/-- No packet but the first requests anything of a decided flow. -/
theorem process_decided (h : d.directionDecided = true) (dir : Bool) (a : Arrival) (rdp : Bool) :
    (d.process env dir a false rdp).flow = d.flow ∧ (d.process env dir a false rdp).directionDecided = true := by
  have hl4 : ∀ e : State, e.flow = d.flow ∧ e.directionDecided = true →
      (if a.dissected then e.dissect env dir a else e).flow = d.flow ∧
        (if a.dissected then e.dissect env dir a else e).directionDecided = true := by
    rintro e ⟨hf, he⟩
    split
    · obtain ⟨h1, h2⟩ := @dissect_decided env _ he dir a
      exact ⟨h1.trans hf, h2⟩
    · exact ⟨hf, he⟩
  obtain ⟨hf, hd⟩ := updateTcpFlags_same d a.tcpFlags dir
  unfold State.process
  refine hl4 _ ?_
  split
  · unfold State.checkTCPDirection
    rw [hd, h, Bool.or_true, if_pos rfl]
    exact ⟨hf, hd.trans h⟩
  · split
    · exact ⟨rfl, h⟩
    · exact ⟨rfl, h⟩

theorem swap_same (d : State) : (d.swap env).flow = d.flow.swap env.prefs.flowSwapHeuristic ∧
    (d.swap env).directionDecided = d.directionDecided := by
  unfold State.swap
  cases env.prefs.flowSwapHeuristic <;> exact ⟨rfl, rfl⟩

/-- Of a decided flow a packet only performs the swap. -/
theorem receive_decided (h : d.directionDecided = true) {a : Arrival} {dir : Bool} (hf : finds env d a = some dir) :
    (receive env d a).flow = (if d.flow.swapRequested then d.flow.swap env.prefs.flowSwapHeuristic else d.flow) ∧
      (receive env d a).directionDecided = true := by
  obtain ⟨hflow, hdecided⟩ := @swap_same env d
  unfold receive
  rw [hf]
  dsimp only
  split
  · obtain ⟨h1, h2⟩ := @process_decided env _ (hdecided.trans h)
      (ntohs a.packet.srcPort == (d.swap env).cliPort && ntohs a.packet.dstPort == (d.swap env).srvPort) a false
    exact ⟨h1.trans hflow, h2⟩
  · exact process_decided h dir a false

theorem receive_other {a : Arrival} (hf : finds env d a = none) : receive env d a = d := by
  unfold receive
  rw [hf]

theorem requested_of_performs {e : Ev} (h : performs env d e = true) : d.flow.swapRequested = true := by
  cases e with
  | packet a rdp => exact (Bool.and_eq_true_iff.mp h).1
  | performPendingSwap => exact h
  | endDissection p | idle => cases h

/-- What a step does to a decided flow. -/
theorem step_decided (h : d.directionDecided = true) (e : Ev) : ∃ d', step env (some d) e = some d' ∧
    d'.directionDecided = true ∧
      (d'.flow = d.flow ∨ d'.flow = { d.flow with idle := true } ∨
        performs env d e = true ∧ d'.flow = d.flow.swap env.prefs.flowSwapHeuristic) := by
  cases e with
  | packet a rdp =>
    refine ⟨_, rfl, ?_⟩
    cases hf : finds env d a with
    | none =>
      rw [receive_other hf]
      exact ⟨h, .inl rfl⟩
    | some dir =>
      obtain ⟨hflow, hdecided⟩ := receive_decided h hf
      refine ⟨hdecided, ?_⟩
      rw [hflow]
      split
      · rename_i hr
        exact .inr (.inr ⟨by rw [performs, hr, hf]; rfl, rfl⟩)
      · exact .inl rfl
  | endDissection p =>
    obtain ⟨hflow, hdecided⟩ := @completeDetection_decided env _ h p
    exact ⟨_, rfl, hdecided, .inl hflow⟩
  | performPendingSwap =>
    refine ⟨_, rfl, ?_⟩
    obtain ⟨hflow, hdecided⟩ := @swap_same env d
    split
    · exact ⟨hdecided.trans h, .inr (.inr ⟨‹_›, hflow⟩)⟩
    · exact ⟨h, .inl rfl⟩
  | idle => exact ⟨_, rfl, h, .inr (.inl rfl)⟩

theorem step_settled {s : Option State} (hd : decided s) (hp : ¬ pending s) (e : Ev) :
    decided (step env s e) ∧ ¬ pending (step env s e) ∧ client (step env s e) = client s := by
  obtain ⟨d, rfl, h⟩ := hd
  have hno : d.flow.swapRequested = false := by
    cases hr : d.flow.swapRequested
    · rfl
    · exact absurd ⟨d, rfl, hr⟩ hp
  obtain ⟨d', hstep, hdecided, hflow⟩ := @step_decided env _ h e
  rw [hstep]
  have hkeep : d'.flow.swapRequested = false ∧ d'.flow.cliIpAddr = d.flow.cliIpAddr ∧ d'.flow.cliPort = d.flow.cliPort := by
    rcases hflow with hf | hf | ⟨hr, -⟩
    · rw [hf]
      exact ⟨hno, rfl, rfl⟩
    · rw [hf]
      exact ⟨hno, rfl, rfl⟩
    · rw [requested_of_performs hr] at hno
      cases hno
  obtain ⟨h1, h2, h3⟩ := hkeep
  refine ⟨⟨d', rfl, hdecided⟩, ?_, ?_⟩
  · rintro ⟨_, ⟨rfl⟩, hr⟩
    rw [h1] at hr
    cases hr
  · unfold client
    rw [Option.map_some, Option.map_some, h2, h3]

theorem run_settled {s : Option State} (hd : decided s) (hp : ¬ pending s) (es : List Ev) :
    client (run (step env) s es) = client s := by
  induction es generalizing s with
  | nil => rfl
  | cons e es ih =>
    obtain ⟨hd', hp', hc⟩ := @step_settled env _ hd hp e
    rw [run_cons, ih hd' hp', hc]

/-! ## Peers -/

theorem Whole.bothPeers {f : Lookup.Flow} (h : Whole f) (hc : f.cliIpAddr.isSome) (hs : f.srvIpAddr.isSome) :
    f.bothPeers = true := by
  have hhosts := h hc hs
  unfold Flow.bothPeers
  cases hch : f.cliHost <;> cases hsh : f.srvHost <;> simp_all

/-- An address that is missing stays missing. -/
theorem swap_missing {f : Lookup.Flow} (h : ¬ (f.cliIpAddr.isSome ∧ f.srvIpAddr.isSome)) :
    ¬ ((f.swap true).cliIpAddr.isSome ∧ (f.swap true).srvIpAddr.isSome) := by
  cases hb : f.bothPeers with
  | false =>
    have hcli : (f.swap true).cliIpAddr = f.cliIpAddr ∧ (f.swap true).srvIpAddr = f.srvIpAddr := by
      unfold Flow.bothPeers at hb
      simp [Flow.swap, hb]
    rw [hcli.1, hcli.2]
    exact h
  | true =>
    obtain ⟨hcli, hsrv, -⟩ := swap_fields hb
    rw [hcli, hsrv]
    exact fun hboth => h ⟨hboth.2, hboth.1⟩

/-! ## What a pending swap rests on -/

/-- A swap is pending only with the heuristic, and before a decision only between two ports. -/
structure Ok (env : Env) (d : State) : Prop where
  enabled : d.flow.swapRequested = true → env.prefs.flowSwapHeuristic = true
  ports : d.directionDecided = false → d.flow.protocol = IPPROTO_TCP → d.flow.swapRequested = true →
    d.flow.cliPort ≠ d.flow.srvPort

theorem Ok.of_not (h : d.flow.swapRequested = false) : Ok env d := by
  refine ⟨?_, ?_⟩
  · intro hr
    rw [h] at hr
    cases hr
  · intro _ _ hr
    rw [h] at hr
    cases hr

theorem Ok.of_flow {e : State} (h : Ok env d) (hf : e.flow = d.flow)
    (hd : d.directionDecided = true → e.directionDecided = true) : Ok env e := by
  constructor
  · rw [hf]
    exact h.enabled
  · intro hund
    have hund' : d.directionDecided = false := by
      cases hdd : d.directionDecided
      · rfl
      · rw [hd hdd] at hund
        cases hund
    rw [hf]
    exact h.ports hund'

theorem Ok.requestSwap (hports : d.directionDecided = false → d.flow.protocol = IPPROTO_TCP →
    d.flow.cliPort ≠ d.flow.srvPort) (h : Ok env d) : Ok env (d.requestSwap env) := by
  unfold State.requestSwap
  split
  · exact ⟨fun _ => ‹_›, fun hund htcp _ => hports hund htcp⟩
  · exact h

theorem Ok.swap (h : Ok env d) : Ok env (d.swap env) := by
  unfold State.swap
  split
  · exact Ok.of_not rfl
  · exact h

theorem Ok.checkSwap (h : Ok env d) (rdp : Bool) (hrdp : d.flow.protocol = IPPROTO_TCP → rdp = false) :
    Ok env (d.checkSwap env rdp) := by
  unfold State.checkSwap
  split
  · split
    · rename_i hguess
      refine h.requestSwap fun _ htcp heq => ?_
      unfold portsGuess at hguess
      rw [hrdp htcp] at hguess
      have hlt : ¬ d.cliPort < d.srvPort := by
        unfold State.cliPort State.srvPort
        rw [heq]
        exact UInt16.lt_irrefl _
      simp [hlt] at hguess
    · exact h
  · exact h

theorem Ok.checkTCPDirection (h : Ok env d) (dir : Bool) (flags : UInt8) (new : Bool) :
    Ok env (d.checkTCPDirection env dir flags new) := by
  unfold State.checkTCPDirection
  split
  · exact h
  · split
    · split
      · exact h.checkSwap false fun _ => rfl
      · exact h
    · dsimp only
      have hdecided : Ok env { d with directionDecided := true } := ⟨h.enabled, (fun hund => by cases hund)⟩
      split
      · exact hdecided.requestSwap fun hund => by cases hund
      · exact hdecided

theorem Ok.checkL7Direction (h : Ok env d) (dir : Bool) (a : Arrival) : Ok env (d.checkL7Direction env dir a) := by
  unfold State.checkL7Direction
  split
  · exact h
  · split
    · exact h
    · dsimp only
      have hdecided : Ok env { d with directionDecided := true } := ⟨h.enabled, (fun hund => by cases hund)⟩
      split
      · exact (hdecided.requestSwap fun hund => by cases hund).swap
      · exact hdecided

theorem Ok.fixByPorts (h : Ok env d) (protos : List UInt16) : Ok env (d.fixByPorts env protos) := by
  induction protos with
  | nil => exact h
  | cons p protos ih =>
    unfold State.fixByPorts
    dsimp only
    split
    · rename_i hdiffer
      split
      · split
        · refine h.requestSwap fun _ _ heq => ?_
          unfold State.cliPort State.srvPort at hdiffer
          rw [heq] at hdiffer
          simp at hdiffer
        · exact Ok.of_not rfl
      · exact h
    · exact ih

theorem Ok.completeDetection (h : Ok env d) (p : Detected) : Ok env (d.completeDetection env p) := by
  unfold State.completeDetection
  split
  · exact h
  · refine Ok.of_flow (d := d.checkDirectionByProtocol env p) ?_ rfl fun hd => hd
    unfold State.checkDirectionByProtocol
    dsimp only
    split
    · exact h
    · split
      · exact h
      · have hfix := h.fixByPorts [p.masterProtocol, p.appProtocol]
        split
        · exact ⟨hfix.enabled, (fun hund => by cases hund)⟩
        · exact hfix

theorem Ok.process (h : Ok env d) (dir : Bool) (a : Arrival) (new rdp : Bool) :
    Ok env (d.process env dir a new rdp) := by
  have hdissect : ∀ e, Ok env e → Ok env (if a.dissected then e.dissect env dir a else e) := by
    intro e he
    split
    · unfold State.dissect
      have hobserve : Ok env (e.observePayload a) := he.of_flow rfl fun hd => hd
      have hl7 : Ok env (if (e.observePayload a).directionDecided then e.observePayload a
          else (e.observePayload a).checkL7Direction env dir a) := by
        split
        · exact hobserve
        · exact hobserve.checkL7Direction dir a
      dsimp only
      split
      · exact hl7.completeDetection _
      · exact hl7
    · exact he
  unfold State.process
  refine hdissect _ ?_
  split
  · obtain ⟨hf, hd⟩ := updateTcpFlags_same d a.tcpFlags dir
    exact (h.of_flow hf fun hdd => hd.trans hdd).checkTCPDirection _ _ _
  · split
    · exact h
    · split
      · exact h.checkSwap rdp fun htcp => absurd htcp ‹_›
      · exact h

theorem Ok.create {a : Arrival} {rdp : Bool} (h : create env a rdp = some d) :
    Ok env d := by
  unfold Direction.create at h
  split at h
  · cases h
  · cases h
    exact Ok.process (Ok.of_not rfl) _ _ _ _

theorem Ok.receive (h : Ok env d) (a : Arrival) : Ok env (receive env d a) := by
  unfold Direction.receive
  split
  · exact h
  · split
    · exact h.swap.process _ _ _ _
    · exact h.process _ _ _ _

/-- Of every flow that a run leads to. -/
theorem ok_run (es : List Ev) : ∀ d, run (step env) none es = some d → Ok env d := by
  induction es using List.reverseRecOn with
  | nil => exact fun d h => by cases h
  | append_singleton es e ih =>
    intro d h
    rw [run_snoc] at h
    cases hs : run (step env) none es with
    | none =>
      rw [hs] at h
      cases e with
      | packet a rdp => exact Ok.create h
      | endDissection p => cases h
      | performPendingSwap => cases h
      | idle => cases h
    | some c =>
      have hc := ih c hs
      rw [hs] at h
      cases e with
      | packet a rdp =>
        cases h
        exact hc.receive a
      | endDissection p =>
        cases h
        exact hc.completeDetection p
      | performPendingSwap =>
        cases h
        split
        · exact hc.swap
        · exact hc
      | idle =>
        cases h
        exact ⟨hc.enabled, hc.ports⟩

/-! ## Packets of the flow -/

/-- A packet that finds the flow, in its direction. -/
theorem finds_forward {a : Arrival} {dir : Bool} (h : finds env d a = some dir) :
    if dir then d.flow.Forward a.packet else d.flow.Forward a.packet.reverse := by
  unfold finds at h
  split at h
  · cases h
  · have htuple : d.flow.SameTuple a.packet := equal_isSome (by rw [h]; rfl)
    by_cases hf : d.flow.Forward a.packet
    · rw [equal_forward hf] at h
      split at h
      · cases h
        exact hf
      · cases h
    · have hb := htuple.resolve_left hf
      rw [equal_backward hf hb] at h
      split at h
      · cases h
        exact hb
      · cases h

theorem finds_addresses {a : Arrival} (h : finds env d a ≠ none) :
    d.flow.cliIpAddr.isSome ∧ d.flow.srvIpAddr.isSome := by
  cases hf : finds env d a with
  | none => exact absurd hf h
  | some dir =>
    have hforward := finds_forward hf
    cases dir
    · exact ⟨by rw [hforward.cliIpAddr]; rfl, by rw [hforward.srvIpAddr]; rfl⟩
    · exact ⟨by rw [hforward.cliIpAddr]; rfl, by rw [hforward.srvIpAddr]; rfl⟩

/-! ## A handshake -/

/-- The client is `ip`, once the swap that is pending is performed. -/
def Heads (f : Lookup.Flow) (ip : IpAddress × UInt16) : Prop :=
  if f.swapRequested then f.srvIpAddr = some ip.1 ∧ f.srvPort = ip.2
  else f.cliIpAddr = some ip.1 ∧ f.cliPort = ip.2

/-- Of a flow decided by a handshake. -/
structure Toward (env : Env) (ip : IpAddress × UInt16) (d : State) : Prop where
  decided : d.directionDecided = true
  enabled : env.prefs.flowSwapHeuristic = true
  heads : d.flow.cliIpAddr.isSome → d.flow.srvIpAddr.isSome → Heads d.flow ip

theorem Toward.swap_flow {ip : IpAddress × UInt16} (h : Toward env ip d) (hw : Whole d.flow) (hr : d.flow.swapRequested = true)
    (hc : (d.flow.swap true).cliIpAddr.isSome) (hs : (d.flow.swap true).srvIpAddr.isSome) :
    (d.flow.swap true).cliIpAddr = some ip.1 ∧ (d.flow.swap true).cliPort = ip.2 := by
  by_cases hboth : d.flow.cliIpAddr.isSome ∧ d.flow.srvIpAddr.isSome
  · obtain ⟨h1, -, h3, -⟩ := swap_fields (hw.bothPeers hboth.1 hboth.2)
    have hheads := h.heads hboth.1 hboth.2
    unfold Heads at hheads
    rw [if_pos hr] at hheads
    exact ⟨h1.trans hheads.1, h3.trans hheads.2⟩
  · exact absurd ⟨hc, hs⟩ (swap_missing hboth)

theorem Toward.step {ip : IpAddress × UInt16} (h : Toward env ip d) {e : Ev} (hsound : Sound env (some d) e) :
    ∃ d', step env (some d) e = some d' ∧ Toward env ip d' := by
  obtain ⟨d', hstep, hdecided, hflow⟩ := @step_decided env _ h.decided e
  refine ⟨d', hstep, hdecided, h.enabled, ?_⟩
  rcases hflow with hf | hf | ⟨hr, hf⟩
  · rw [hf]
    exact h.heads
  · rw [hf]
    exact h.heads
  · rw [hf, h.enabled]
    exact fun hc hs => h.swap_flow (hsound hr) (requested_of_performs hr) hc hs

theorem Toward.run {ip : IpAddress × UInt16} (h : Toward env ip d) {es : List Ev}
    (hsound : Along (Direction.step env) (Sound env) (some d) es) :
    ∃ d', run (Direction.step env) (some d) es = some d' ∧ Toward env ip d' := by
  induction es generalizing d with
  | nil => exact ⟨d, rfl, h⟩
  | cons e es ih =>
    obtain ⟨d', hstep, h'⟩ := h.step hsound.1
    have hrest := hsound.2
    rw [hstep] at hrest
    rw [run_cons, hstep]
    exact ih h' hrest

/-- The next packet of the flow makes it the client. -/
theorem Toward.packet {ip : IpAddress × UInt16} (h : Toward env ip d) {b : Arrival} (hb : finds env d b ≠ none)
    {rdp : Bool} (hsound : Sound env (some d) (.packet b rdp)) :
    let s := Direction.step env (some d) (.packet b rdp)
    Direction.decided s ∧ ¬ pending s ∧ client s = some (some ip.1, ip.2) := by
  obtain ⟨hc, hs⟩ := finds_addresses hb
  cases hf : finds env d b with
  | none => exact absurd hf hb
  | some dir =>
    obtain ⟨hflow, hdecided⟩ := @receive_decided env _ h.decided _ _ hf
    have hheads := h.heads hc hs
    have hclient : (receive env d b).flow.swapRequested = false ∧ (receive env d b).flow.cliIpAddr = some ip.1 ∧
        (receive env d b).flow.cliPort = ip.2 := by
      rw [hflow, h.enabled]
      unfold Heads at hheads
      cases hr : d.flow.swapRequested with
      | false =>
        rw [hr] at hheads
        exact ⟨hr, hheads⟩
      | true =>
        obtain ⟨h1, -, h3, -⟩ := swap_fields ((hsound (by rw [performs, hr, hf]; rfl)).bothPeers hc hs)
        rw [if_pos hr] at hheads
        exact ⟨rfl, h1.trans hheads.1, h3.trans hheads.2⟩
    refine ⟨⟨_, rfl, hdecided⟩, ?_, ?_⟩
    · rintro ⟨_, ⟨rfl⟩, hr⟩
      rw [hclient.1] at hr
      cases hr
    · change some (_, _) = _
      rw [hclient.2.1, hclient.2.2]

theorem handshakeClient_eq {a : Arrival} {ip : IpAddress × UInt16} (h : handshakeClient a = some ip) :
    a.packet.protocol = IPPROTO_TCP ∧ ∃ c, State.sentByClient a.tcpFlags = some c ∧
      ip = if c then (a.packet.srcIp, a.packet.srcPort) else (a.packet.dstIp, a.packet.dstPort) := by
  unfold handshakeClient at h
  split at h
  · obtain ⟨c, hc, heq⟩ := Option.map_eq_some_iff.mp h
    exact ⟨‹_›, c, hc, heq.symm⟩
  · cases h

/-- A handshake decides, and requests a swap when it goes the wrong way. -/
theorem process_sent {a : Arrival} {c : Bool} (he : env.prefs.flowSwapHeuristic = true)
    (hund : d.directionDecided = false) (hr : d.flow.swapRequested = false) (htcp : d.flow.protocol = IPPROTO_TCP)
    (hc : State.sentByClient a.tcpFlags = some c) (dir new rdp : Bool) :
    (d.process env dir a new rdp).flow = { d.flow with swapRequested := c != dir } ∧
      (d.process env dir a new rdp).directionDecided = true := by
  obtain ⟨hf, hd⟩ := updateTcpFlags_same d a.tcpFlags dir
  have hcheck : ((d.updateTcpFlags a.tcpFlags dir).checkTCPDirection env dir a.tcpFlags new).flow =
        { d.flow with swapRequested := c != dir } ∧
      ((d.updateTcpFlags a.tcpFlags dir).checkTCPDirection env dir a.tcpFlags new).directionDecided = true := by
    unfold State.checkTCPDirection State.requestSwap
    rw [he, hd, hund, hc]
    dsimp only
    cases hcd : c != dir
    · refine ⟨?_, rfl⟩
      rw [if_neg (by decide), if_neg (by decide), ← hr, ← hf]
    · refine ⟨?_, rfl⟩
      rw [if_neg (by decide), if_pos rfl, if_pos rfl, hf]
  unfold State.process
  dsimp only
  rw [if_pos htcp]
  split
  · obtain ⟨h1, h2⟩ := @dissect_decided env _ hcheck.2 dir a
    exact ⟨h1.trans hcheck.1, h2⟩
  · exact hcheck

/-- What a handshake makes of a flow that is not decided and has no swap pending. -/
theorem process_handshake {ip : IpAddress × UInt16} {a : Arrival} {dir : Bool}
    (he : env.prefs.flowSwapHeuristic = true) (hund : d.directionDecided = false) (hr : d.flow.swapRequested = false)
    (htcp : d.flow.protocol = IPPROTO_TCP)
    (hdir : d.flow.cliIpAddr.isSome → d.flow.srvIpAddr.isSome →
      if dir then d.flow.Forward a.packet else d.flow.Forward a.packet.reverse)
    (hip : handshakeClient a = some ip) (new rdp : Bool) : Toward env ip (d.process env dir a new rdp) := by
  obtain ⟨-, c, hc, hipc⟩ := handshakeClient_eq hip
  obtain ⟨hflow, hdecided⟩ := process_sent he hund hr htcp hc dir new rdp
  refine ⟨hdecided, he, ?_⟩
  rw [hflow]
  intro hcs hss
  have hforward := hdir hcs hss
  unfold Heads
  dsimp only
  rw [hipc]
  cases c <;> cases dir
  · exact ⟨hforward.cliIpAddr, hforward.cliPort⟩
  · exact ⟨hforward.srvIpAddr, hforward.srvPort⟩
  · exact ⟨hforward.srvIpAddr, hforward.srvPort⟩
  · exact ⟨hforward.cliIpAddr, hforward.cliPort⟩

/-- The swap that is pending is performed before the handshake is looked at. -/
theorem receive_handshake {ip : IpAddress × UInt16} {a : Arrival} (he : env.prefs.flowSwapHeuristic = true)
    (hund : d.directionDecided = false) (hok : Ok env d) {rdp : Bool} (hsound : Sound env (some d) (.packet a rdp))
    (hf : finds env d a ≠ none) (hip : handshakeClient a = some ip) : Toward env ip (receive env d a) := by
  have hpacket := (handshakeClient_eq hip).1
  obtain ⟨hcs, hss⟩ := finds_addresses hf
  cases hfinds : finds env d a with
  | none => exact absurd hfinds hf
  | some dir =>
    have hforward := finds_forward hfinds
    have htcp : d.flow.protocol = IPPROTO_TCP := by
      cases dir
      · exact (hforward.protocol).trans hpacket
      · exact (hforward.protocol).trans hpacket
    unfold receive
    rw [hfinds]
    dsimp only
    cases hr : d.flow.swapRequested with
    | false =>
      rw [if_neg (by decide)]
      exact process_handshake he hund hr htcp (fun _ _ => hforward) hip false false
    | true =>
      rw [if_pos rfl]
      obtain ⟨hflow, hdecided⟩ := @swap_same env d
      rw [he] at hflow
      have hboth := (hsound (by rw [performs, hr, hfinds]; rfl)).bothPeers hcs hss
      obtain ⟨-, -, hcp, hsp⟩ := swap_fields hboth
      have hne := hok.ports hund htcp hr
      refine process_handshake he (hdecided.trans hund) (by rw [hflow]; rfl)
        (by rw [hflow]; exact htcp) (fun _ _ => ?_) hip false false
      have hports : (ntohs a.packet.srcPort == (d.swap env).cliPort && ntohs a.packet.dstPort == (d.swap env).srvPort) =
          !dir := by
        unfold State.cliPort State.srvPort
        rw [hflow, hcp, hsp]
        cases dir with
        | false =>
          have h1 : d.flow.srvPort = a.packet.srcPort := hforward.srvPort
          have h2 : d.flow.cliPort = a.packet.dstPort := hforward.cliPort
          simp [h1, h2]
        | true =>
          have h1 : d.flow.cliPort = a.packet.srcPort := hforward.cliPort
          rw [← h1]
          simp [hne]
      rw [hports, hflow]
      cases dir with
      | false =>
        have hrev : a.packet.reverse.reverse = a.packet := rfl
        exact (swap_forward hboth _).mpr hforward
      | true => exact (swap_forward hboth _).mpr hforward

/-- A new flow with both addresses goes the way of its packet. -/
theorem newFlow_forward {p : Packet} {o : Outside} (hcs : (newFlow p o).cliIpAddr.isSome)
    (hss : (newFlow p o).srvIpAddr.isSome) : (newFlow p o).Forward p := by
  refine ⟨rfl, rfl, rfl, ?_, ?_, rfl, rfl⟩
  · unfold newFlow at hcs ⊢
    dsimp only at hcs ⊢
    split
    · rfl
    · rename_i hno
      rw [if_neg hno] at hcs
      cases hcs
  · unfold newFlow at hss ⊢
    dsimp only at hss ⊢
    split
    · rfl
    · rename_i hno
      rw [if_neg hno] at hss
      cases hss

theorem create_handshake {ip : IpAddress × UInt16} {a : Arrival} {rdp : Bool} (he : env.prefs.flowSwapHeuristic = true)
    (hcreate : create env a rdp = some d) (hip : handshakeClient a = some ip) :
    Toward env ip d := by
  unfold create at hcreate
  split at hcreate
  · cases hcreate
  · cases hcreate
    refine process_handshake he rfl rfl (handshakeClient_eq hip).1 (fun hcs hss => ?_) hip true rdp
    exact newFlow_forward hcs hss

/-! ## Without the heuristic -/

theorem completeDetection_disabled (he : env.prefs.flowSwapHeuristic = false) (h : d.directionDecided = false)
    (p : Detected) : (d.completeDetection env p).directionDecided = false := by
  unfold State.completeDetection State.checkDirectionByProtocol
  split
  · exact h
  · simpa [he] using h

theorem process_disabled (he : env.prefs.flowSwapHeuristic = false) (h : d.directionDecided = false) (dir : Bool)
    (a : Arrival) (new rdp : Bool) : (d.process env dir a new rdp).directionDecided = false := by
  have hdissect : ∀ e : State, e.directionDecided = false →
      (if a.dissected then e.dissect env dir a else e).directionDecided = false := by
    intro e h
    split
    · have hobserve : (e.observePayload a).directionDecided = false := h
      have hl7 : (e.observePayload a).checkL7Direction env dir a = e.observePayload a := by
        unfold State.checkL7Direction
        simp [he]
      unfold State.dissect
      dsimp only
      rw [hl7, ite_self]
      split
      · exact completeDetection_disabled he hobserve _
      · exact hobserve
    · exact h
  unfold State.process
  refine hdissect _ ?_
  split
  · unfold State.checkTCPDirection
    rw [he, Bool.not_false, Bool.true_or, if_pos rfl, (updateTcpFlags_same d _ _).2]
    exact h
  · split
    · exact h
    · unfold State.checkSwap
      rw [he]
      split <;> exact h

theorem undecided_run (he : env.prefs.flowSwapHeuristic = false) (es : List Ev) :
    ∀ d, run (step env) none es = some d → d.directionDecided = false := by
  induction es using List.reverseRecOn with
  | nil => exact fun d h => by cases h
  | append_singleton es e ih =>
    intro d h
    rw [run_snoc] at h
    cases hs : run (step env) none es with
    | none =>
      rw [hs] at h
      cases e with
      | packet a rdp =>
        change create env a rdp = some d at h
        unfold create at h
        split at h
        · cases h
        · cases h
          exact process_disabled he rfl _ _ _ _
      | endDissection p => cases h
      | performPendingSwap => cases h
      | idle => cases h
    | some c =>
      have hc := ih c hs
      obtain ⟨-, hswap⟩ := @swap_same env c
      rw [hs] at h
      cases e with
      | packet a rdp =>
        cases h
        unfold receive
        split
        · exact hc
        · split
          · exact process_disabled he (hswap.trans hc) _ _ _ _
          · exact process_disabled he hc _ _ _ _
      | endDissection p =>
        cases h
        exact completeDetection_disabled he hc p
      | performPendingSwap =>
        cases h
        split
        · exact hswap.trans hc
        · exact hc
      | idle =>
        cases h
        exact hc

theorem enabled_of_decided {es : List Ev} (h : decided (run (step env) none es)) : env.prefs.flowSwapHeuristic = true := by
  obtain ⟨d, hs, hd⟩ := h
  cases he : env.prefs.flowSwapHeuristic
  · rw [undecided_run he es d hs] at hd
    cases hd
  · rfl

/-! ## The law -/

theorem performed_of_decided {es : List Ev} {a : Arrival} {rdp : Bool} (hd : decided (run (step env) none es))
    (ha : isOf env (run (step env) none es) a) : ¬ pending (step env (run (step env) none es) (.packet a rdp)) := by
  have he := enabled_of_decided hd
  obtain ⟨d, hs, hdec⟩ := hd
  rw [hs] at ha ⊢
  cases hf : finds env d a with
  | none => exact absurd hf (ha d rfl)
  | some dir =>
    obtain ⟨hflow, -⟩ := receive_decided hdec hf
    rintro ⟨_, ⟨rfl⟩, hr⟩
    rw [hflow, he] at hr
    split at hr
    · cases hr
    · rename_i hno
      exact hno hr

/-- A handshake that decides heads for its client. -/
theorem toward_of_handshake {es : List Ev} {a : Arrival} {rdp : Bool} {ip : IpAddress × UInt16}
    (hsound : Sound env (run (step env) none es) (.packet a rdp)) (hund : ¬ decided (run (step env) none es)) (ha : isOf env (run (step env) none es) a)
    (hd : decided (step env (run (step env) none es) (.packet a rdp))) (hip : handshakeClient a = some ip) :
    ∃ d, step env (run (step env) none es) (.packet a rdp) = some d ∧ Toward env ip d := by
  have he : env.prefs.flowSwapHeuristic = true := by
    rw [← run_snoc (step env)] at hd
    exact enabled_of_decided hd
  cases hs : run (step env) none es with
  | none =>
    rw [hs] at hd
    obtain ⟨d, hcreate, -⟩ := hd
    exact ⟨d, hcreate, create_handshake he hcreate hip⟩
  | some c =>
    rw [hs] at hund ha hsound
    have hcund : c.directionDecided = false := by
      cases hc : c.directionDecided
      · rfl
      · exact absurd ⟨c, rfl, hc⟩ hund
    exact ⟨_, rfl, receive_handshake he hcund (ok_run es c hs) hsound (ha c rfl) hip⟩

/-- A SYN-ACK from 0.0.0.1, port 443, to 0.0.0.2, port 1000; the MACs are not known. -/
def synAck : Arrival :=
  { packet :=
      { srcMac := none, dstMac := none, srcIp := .v4 1, dstIp := .v4 2, srcPort := 443, dstPort := 1000, vlanId := 0
        privateFlowId := 0, protocol := 6, icmpInfo := none }
    hostMac := fun _ => none, tcpFlags := 0x12, payload := [], dissected := false, byDpi := false, l7 := .other
    detected := none }

/-- The server of the SYN-ACK has a host, and there is no room for the other one. -/
def fullHosts : Env :=
  { prefs := ⟨true, false⟩
    outside :=
      { createIfMissing := true, emptyRoom := true, flowOk := true, cliHost := some 0, srvHost := none, cliIpOk := true
        srvIpOk := true, icmpOk := true, unreachOk := true }
    isNonEmptyUnicastAddress := fun _ => true, isDefaultPort := fun _ _ _ => false, isSNMPReply := fun _ _ => none }

/-- The law holds of every run that performs its pending swaps only between peers that can be exchanged. -/
theorem law_of_sound {es : List Ev} (h : Along (step env) (Sound env) none es) : Law env es := by
  refine ⟨fun as bs cs _ hd hp => run_settled hd hp bs, fun as a rdp bs _ hd ha => performed_of_decided hd ha, ?_⟩
  intro as a rdp bs b rdp' cs ds ip hes hund ha hd hip hb
  rw [hes, along_append] at h
  obtain ⟨-, hsound, hafter⟩ := h
  obtain ⟨d, hs, htoward⟩ := toward_of_handshake hsound hund ha hd hip
  rw [along_append] at hafter
  obtain ⟨hbetween, hnext, -⟩ := hafter
  rw [hs] at hb hbetween hnext ⊢
  obtain ⟨d', hs', htoward'⟩ := htoward.run hbetween
  rw [hs'] at hb hnext ⊢
  obtain ⟨hdecided, hpending, hclient⟩ := htoward'.packet (hb d' rfl) hnext
  rw [run_settled hdecided hpending, hclient]

/-- With a host for both the swap is performed; that of a SYN needs none. -/
theorem law_of_sound_handshake :
    Law { fullHosts with outside := { fullHosts.outside with srvHost := some 1 } }
      [.packet synAck false, .packet synAck false, .packet synAck false] ∧
    Law fullHosts [.packet { synAck with tcpFlags := 0x02 } false, .packet synAck false] :=
  ⟨law_of_sound (by decide), law_of_sound (by decide)⟩

/-- After the SYN-ACK and one more packet the client has the address of the server and the port of the client. -/
theorem not_law : ¬ Law fullHosts [.packet synAck false, .packet synAck false] ∧
    client (run (step fullHosts) none [.packet synAck false, .packet synAck false]) = some (some (.v4 1), 1000) := by
  refine ⟨fun hlaw => ?_, by decide⟩
  have hclient := hlaw.handshake [] synAck false [] synAck false [] [] (.v4 2, 1000) rfl (fun ⟨_, h, _⟩ => by cases h)
    (fun _ h => by cases h) ⟨_, rfl, rfl⟩ rfl (fun d hd => by cases hd; decide)
  revert hclient
  decide

end Ntopng.Flows.Direction
