/-
  Ntopng.Flows.LookupProofs — when a packet finds its flow.

  Proved: the bucket of a packet is that of both its directions and of the flow it created,
  swapped or not. In every run in which ICMP flows of one pair of hosts agree in what was
  unreachable, MACs do not tell flows of the same addresses and ports apart, and a requested
  swap meets a packet whose direction the ports show, every packet finds its flow, in the
  direction in which it was sent, in at most one turn (`packets_find_their_flow`).
-/

import Ntopng.Flows.Lookup

namespace Ntopng.Flows.Lookup

open Ntopng.Lib.Run Ntopng.Lib.Bytes

/-! ## The property -/

/-- Every flow is linked in the bucket of the packet that created it. -/
def TableOk (s : Sys) : Prop := ∀ b f, f ∈ s.table b → b = s.hash (s.creator f)

structure PacketOk (s : Sys) (p : Packet) (o : Outside) : Prop where
  bothWays : s.hash p.reverse = s.hash p
  linked : ∀ f dir s', s.getFlow p o = (some (f, dir, true), s') → f ∈ s'.table (s.hash p)
  found : ∀ b f, f ∈ s.table b → (s.flow f).idle = false → (s.equal (s.flow f) p).isSome →
    (∃ dir, s.find p = (some (f, dir), none)) ∨ s.find p = (none, some f)
  direction : ∀ f dir new s', s.getFlow p o = (some (f, dir, new), s') →
    (dir = true ↔ (s'.flow f).cliIpAddr = some p.srcIp ∧ (s'.flow f).cliPort = p.srcPort)
  terminates : ∃ n, (Sys.preGetFlow p o n s).isSome

/-- A packet that is processed. -/
def EvOk (s : Sys) : Ev → Prop
  | .packet p o => PacketOk s p o
  | _ => True

/-! ## The condition -/

namespace Flow

variable (f : Flow) (p : Packet)

/-- The packet goes from the client to the server of the flow. -/
structure Forward : Prop where
  privateFlowId : f.privateFlowId = p.privateFlowId
  vlanId : f.vlanId = p.vlanId
  protocol : f.protocol = p.protocol
  cliIpAddr : f.cliIpAddr = some p.srcIp
  srvIpAddr : f.srvIpAddr = some p.dstIp
  cliPort : f.cliPort = p.srcPort
  srvPort : f.srvPort = p.dstPort

/-- It has the addresses and the ports of the flow, in one direction or the other. -/
def SameTuple : Prop := f.Forward p ∨ f.Forward p.reverse

/-- Both peers are hosts, or neither is and both addresses are known. -/
def bothPeers : Bool :=
  (f.cliHost.isSome && f.srvHost.isSome) ||
    (f.cliIpAddr.isSome && f.cliHost.isNone && f.srvIpAddr.isSome && f.srvHost.isNone)

end Flow

namespace Sys

variable (s : Sys)

/-- In the table and not idle. -/
def Live (f : FlowId) : Prop := (∃ b, f ∈ s.table b) ∧ (s.flow f).idle = false

end Sys

/-- Nothing keeps the packet from a live flow of its addresses and ports, and the flow's swap from it. -/
structure Fits (s : Sys) (f : Flow) (p : Packet) : Prop where
  macs : s.macsMatch f p.srcMac p.dstMac ∧ f.Forward p ∨ s.macsMatch f p.dstMac p.srcMac ∧ ¬ f.Forward p
  unreach : icmpKey f.icmpInfo = icmpKey p.icmpInfo
  swapOn : f.swapRequested → s.prefs.flowSwapHeuristic → f.bothPeers ∧ (f.cliPort = f.srvPort → f.Forward p.reverse)
  swapOff : f.swapRequested → s.prefs.flowSwapHeuristic = false → f.Forward p

/-- The new flow gets its addresses, and its copy of what was unreachable. -/
structure Copied (p : Packet) (o : Outside) : Prop where
  cli : o.cliHost.isSome ∨ o.cliIpOk
  srv : o.srvHost.isSome ∨ o.srvIpOk
  icmp : icmpKey p.icmpInfo = 0 ∨ (o.icmpOk ∧ o.unreachOk)

def Fine (s : Sys) : Ev → Prop
  | .packet p o =>
    (∀ f, s.Live f → (s.flow f).SameTuple p → Fits s (s.flow f) p) ∧
    ((∀ f, s.Live f → ¬ (s.flow f).SameTuple p) → o.createIfMissing → o.emptyRoom → o.flowOk → Copied p o)
  | .swap f => s.prefs.flowSwapHeuristic → s.Live f → (s.flow f).bothPeers
  | _ => True

/-! ## Keys -/

theorem sum_reverse (p : Packet) : p.reverse.sum = p.sum := by
  simp only [Packet.sum, Packet.reverse]
  ac_rfl

theorem hash_reverse (s : Sys) (p : Packet) : s.hash p.reverse = s.hash p := by
  rw [Sys.hash, sum_reverse, Sys.hash]

theorem computeKey_swap (f : Flow) (b : Bool) : (f.swap b).computeKey = f.computeKey := by
  unfold Flow.swap
  split
  · rfl
  · simp only [Flow.computeKey]
    split <;> ac_rfl

/-- A flow and a packet of its addresses and ports have one key, when they agree in what was unreachable. -/
theorem SameTuple.key {f : Flow} {p : Packet} (h : f.SameTuple p) (hi : icmpKey f.icmpInfo = icmpKey p.icmpInfo) :
    f.computeKey = p.sum := by
  rcases h with ⟨h1, h2, h3, h4, h5, h6, h7⟩ | ⟨h1, h2, h3, h4, h5, h6, h7⟩
  · simp only [Flow.computeKey, Packet.sum, h1, h2, h3, h4, h5, h6, h7, hi, ipKey, Option.map_some, Option.getD_some]
    ac_rfl
  · simp only [Packet.reverse] at h1 h2 h3 h4 h5 h6 h7
    simp only [Flow.computeKey, Packet.sum, h1, h2, h3, h4, h5, h6, h7, hi, ipKey, Option.map_some, Option.getD_some]
    ac_rfl

/-! ## equal and find -/

variable {s : Sys} {f : Flow} {p : Packet}

theorem forward_iff (f : Flow) (p : Packet) : f.Forward p ↔
    f.privateFlowId = p.privateFlowId ∧ f.vlanId = p.vlanId ∧ p.protocol = f.protocol ∧
      f.cliIpAddr = some p.srcIp ∧ f.srvIpAddr = some p.dstIp ∧ p.srcPort = f.cliPort ∧ p.dstPort = f.srvPort :=
  ⟨fun ⟨h1, h2, h3, h4, h5, h6, h7⟩ => ⟨h1, h2, h3.symm, h4, h5, h6.symm, h7.symm⟩,
    fun ⟨h1, h2, h3, h4, h5, h6, h7⟩ => ⟨h1, h2, h3.symm, h4, h5, h6.symm, h7.symm⟩⟩

theorem equal_forward (h : f.Forward p) :
    s.equal f p = if s.macsMatch f p.srcMac p.dstMac then some true else none := by
  obtain ⟨h1, h2, h3, h4, h5, h6, h7⟩ := (forward_iff f p).mp h
  simp only [Sys.equal, h1, h2, h3, h4, h5, h6, h7, ne_eq, not_true_eq_false, if_false, and_self, if_true]

theorem equal_backward (hn : ¬ f.Forward p) (h : f.Forward p.reverse) :
    s.equal f p = if s.macsMatch f p.dstMac p.srcMac then some false else none := by
  obtain ⟨h1, h2, h3, h4, h5, h6, h7⟩ := (forward_iff f p.reverse).mp h
  have h1' : f.privateFlowId = p.privateFlowId := h1
  have h2' : f.vlanId = p.vlanId := h2
  have h3' : p.protocol = f.protocol := h3
  have h4' : f.cliIpAddr = some p.dstIp := h4
  have h5' : f.srvIpAddr = some p.srcIp := h5
  have h6' : p.dstPort = f.cliPort := h6
  have h7' : p.srcPort = f.srvPort := h7
  have hno : ¬ (f.cliIpAddr = some p.srcIp ∧ f.srvIpAddr = some p.dstIp ∧ p.srcPort = f.cliPort ∧
      p.dstPort = f.srvPort) := fun hf => hn ((forward_iff f p).mpr ⟨h1', h2', h3', hf⟩)
  unfold Sys.equal
  rw [if_neg (by simp [h1']), if_neg (by simp [h2']), if_neg (by simp [h3']), if_neg hno,
    if_pos ⟨h5', h4', h6', h7'⟩]

theorem equal_isSome (h : (s.equal f p).isSome) : f.SameTuple p := by
  refine Classical.byContradiction fun hn => ?_
  have hf : ¬ f.Forward p := fun hf => hn (.inl hf)
  have hb : ¬ f.Forward p.reverse := fun hb => hn (.inr hb)
  unfold Sys.equal at h
  split at h
  · cases h
  split at h
  · cases h
  split at h
  · cases h
  rename_i h1 h2 h3
  have h1' : f.privateFlowId = p.privateFlowId := by simpa using h1
  have h2' : f.vlanId = p.vlanId := by simpa using h2
  have h3' : p.protocol = f.protocol := by simpa using h3
  rw [if_neg fun hh => hf ((forward_iff f p).mpr ⟨h1', h2', h3', hh⟩),
    if_neg fun hh => hb ((forward_iff f p.reverse).mpr ⟨h1', h2', h3', hh.2.1, hh.1, hh.2.2.1, hh.2.2.2⟩)] at h
  cases h

/-- A packet that fits a flow is equal to it, in its direction. -/
theorem Fits.equal_eq (h : Fits s f p) (ht : f.SameTuple p) :
    ∃ dir, s.equal f p = some dir ∧ (dir = true ↔ f.Forward p) := by
  rcases h.macs with ⟨hm, hf⟩ | ⟨hm, hf⟩
  · exact ⟨true, by rw [equal_forward hf, if_pos hm], by simp [hf]⟩
  · have hb : f.Forward p.reverse := ht.resolve_left hf
    exact ⟨false, by rw [equal_backward hf hb, if_pos hm], by simp [hf]⟩

theorem findLoop_some {l : List FlowId} {f : FlowId} {dir : Bool} (h : s.findLoop p l = some (f, dir)) :
    f ∈ l ∧ (s.flow f).idle = false ∧ s.equal (s.flow f) p = some dir := by
  induction l with
  | nil => cases h
  | cons g rest ih =>
    unfold Sys.findLoop at h
    split at h
    · obtain ⟨hm, h2⟩ := ih h
      exact ⟨List.mem_cons_of_mem _ hm, h2⟩
    · rename_i hidle
      split at h
      · rename_i heq
        cases h
        exact ⟨List.mem_cons_self .., by simpa using hidle, heq⟩
      · obtain ⟨hm, h2⟩ := ih h
        exact ⟨List.mem_cons_of_mem _ hm, h2⟩

theorem findLoop_none {l : List FlowId} (h : s.findLoop p l = none) {f : FlowId} (hf : f ∈ l)
    (hidle : (s.flow f).idle = false) : s.equal (s.flow f) p = none := by
  induction l with
  | nil => cases hf
  | cons g rest ih =>
    unfold Sys.findLoop at h
    rcases List.mem_cons.mp hf with rfl | hf
    · rw [if_neg (by simp [hidle])] at h
      split at h
      · cases h
      · assumption
    · split at h
      · exact ih h hf
      · split at h
        · cases h
        · exact ih h hf

/-! ## The invariant -/

structure Inv (s : Sys) : Prop where
  numbered : ∀ b f, f ∈ s.table b → f < s.created
  linked : ∀ b f, f ∈ s.table b → b = s.hash (s.creator f)
  key : ∀ b f, f ∈ s.table b → (s.flow f).computeKey = (s.creator f).sum
  unique : ∀ f g, s.Live f → s.Live g → ∀ p, (s.flow f).SameTuple p → (s.flow g).SameTuple p → f = g

theorem start_inv (numHashes : UInt32) (prefs : Prefs) : Inv (start numHashes prefs) := by
  refine ⟨?_, ?_, ?_, ?_⟩
  · intro b f hf; cases hf
  · intro b f hf; cases hf
  · intro b f hf; cases hf
  · rintro f g ⟨⟨b, hf⟩, -⟩
    cases hf

/-- A live flow that a packet fits is the one that is found. -/
theorem Inv.find_eq (h : Inv s) {f : FlowId} (hl : s.Live f) (ht : (s.flow f).SameTuple p) (hf : Fits s (s.flow f) p) :
    ∃ dir, (dir = true ↔ (s.flow f).Forward p) ∧
      s.find p = if (s.flow f).swapRequested then (none, some f) else (some (f, dir), none) := by
  obtain ⟨dir, heq, hdir⟩ := hf.equal_eq ht
  obtain ⟨⟨b, hb⟩, hidle⟩ := hl
  have hbucket : b = s.hash p := by
    rw [h.linked b f hb, Sys.hash, ← h.key b f hb, SameTuple.key ht hf.unreach, Sys.hash]
  subst hbucket
  refine ⟨dir, hdir, ?_⟩
  cases hloop : s.findLoop p (s.table (s.hash p)) with
  | none =>
    rw [findLoop_none hloop hb hidle] at heq
    cases heq
  | some r =>
    obtain ⟨g, dir'⟩ := r
    obtain ⟨hg, hgidle, hgeq⟩ := findLoop_some hloop
    have hgt : (s.flow g).SameTuple p := equal_isSome (by rw [hgeq]; rfl)
    have hgf : g = f := h.unique g f ⟨⟨_, hg⟩, hgidle⟩ ⟨⟨_, hb⟩, hidle⟩ p hgt ht
    subst hgf
    have hdir' : dir' = dir := Option.some.inj (hgeq.symm.trans heq)
    simp only [Sys.find, hloop, hdir']

/-- Where no live flow has the addresses and ports of a packet, none is found. -/
theorem find_none (hno : ∀ f, s.Live f → ¬ (s.flow f).SameTuple p) : s.find p = (none, none) := by
  cases hloop : s.findLoop p (s.table (s.hash p)) with
  | none => simp only [Sys.find, hloop]
  | some r =>
    obtain ⟨g, dir⟩ := r
    obtain ⟨hg, hidle, heq⟩ := findLoop_some hloop
    exact absurd (equal_isSome (by rw [heq]; rfl)) (hno g ⟨⟨_, hg⟩, hidle⟩)

/-! ## Swap -/

theorem SameTuple.forward_iff {f : Flow} (h : f.SameTuple p) :
    f.Forward p ↔ f.cliIpAddr = some p.srcIp ∧ f.cliPort = p.srcPort := by
  refine ⟨fun hf => ⟨hf.cliIpAddr, hf.cliPort⟩, fun ⟨hip, hport⟩ => ?_⟩
  rcases h with hf | hb
  · exact hf
  · have hip' : p.srcIp = p.dstIp := Option.some.inj (hip.symm.trans hb.cliIpAddr)
    have hport' : p.srcPort = p.dstPort := hport.symm.trans hb.cliPort
    have hsrv : f.srvIpAddr = some p.srcIp := hb.srvIpAddr
    have hsport : f.srvPort = p.srcPort := hb.srvPort
    exact ⟨hb.privateFlowId, hb.vlanId, hb.protocol, hip, by rw [hsrv, hip'], hport, by rw [hsport, hport']⟩

/-- With both peers, the swap exchanges them. -/
theorem swap_fields {f : Flow} (h : f.bothPeers) :
    (f.swap true).cliIpAddr = f.srvIpAddr ∧ (f.swap true).srvIpAddr = f.cliIpAddr ∧
      (f.swap true).cliPort = f.srvPort ∧ (f.swap true).srvPort = f.cliPort := by
  simp only [Flow.bothPeers] at h
  simp [Flow.swap, h]

theorem swap_forward {f : Flow} (h : f.bothPeers) (p : Packet) : (f.swap true).Forward p ↔ f.Forward p.reverse := by
  obtain ⟨h1, h2, h3, h4⟩ := swap_fields h
  constructor
  · rintro ⟨a, b, c, d, e, g, i⟩
    exact ⟨a, b, c, by rw [← h2, e]; rfl, by rw [← h1, d]; rfl, by rw [← h4, i]; rfl, by rw [← h3, g]; rfl⟩
  · rintro ⟨a, b, c, d, e, g, i⟩
    exact ⟨a, b, c, by rw [h1, e]; rfl, by rw [h2, d]; rfl, by rw [h3, i]; rfl, by rw [h4, g]; rfl⟩

theorem swap_sameTuple {f : Flow} {b : Bool} (h : b = true → f.bothPeers) (p : Packet) :
    (f.swap b).SameTuple p ↔ f.SameTuple p := by
  cases b with
  | false => exact Iff.rfl
  | true =>
    have hrev : p.reverse.reverse = p := rfl
    rw [Flow.SameTuple, swap_forward (h rfl), swap_forward (h rfl), hrev, Flow.SameTuple, or_comm]

theorem swap_idle (f : Flow) (b : Bool) : (f.swap b).idle = f.idle := by
  unfold Flow.swap
  split <;> rfl

/-! ## getFlow -/

/-- The new flow is linked where its packet looks for it. -/
theorem newFlow_key {o : Outside} (h : Copied p o) : (newFlow p o).computeKey = p.sum ∧ (newFlow p o).flowKey = p.sum ∧
    (newFlow p o).Forward p := by
  have hcli : (newFlow p o).cliIpAddr = some p.srcIp := if_pos (by simpa using h.cli)
  have hsrv : (newFlow p o).srvIpAddr = some p.dstIp := if_pos (by simpa using h.srv)
  have hforward : (newFlow p o).Forward p := ⟨rfl, rfl, rfl, hcli, hsrv, rfl, rfl⟩
  have hicmp : icmpKey (newFlow p o).icmpInfo = icmpKey p.icmpInfo := by
    rcases h.icmp with h0 | ⟨h1, h2⟩
    · rw [h0]
      cases hi : p.icmpInfo with
      | none => simp [newFlow, hi, icmpKey]
      | some i =>
        rw [hi] at h0
        cases ho : o.icmpOk <;> cases hu : o.unreachOk <;> simp_all [newFlow, icmpKey, ICMPinfo.key]
    · cases hi : p.icmpInfo <;> simp [newFlow, hi, h1, h2]
  have hkey := SameTuple.key (.inl hforward) hicmp
  exact ⟨hkey, hkey, hforward⟩

/-- The direction that `getFlow` reads off the ports of a flow it has swapped. -/
def portsForward (p : Packet) (f : Flow) : Bool := ntohs p.srcPort == ntohs f.cliPort && ntohs p.dstPort == ntohs f.srvPort

theorem portsForward_iff (p : Packet) (f : Flow) :
    portsForward p f = true ↔ p.srcPort = f.cliPort ∧ p.dstPort = f.srvPort := by
  simp [portsForward]

/-- What `getFlow` does with a packet: it finds the flow, finds and swaps it, finds none, or adds one. -/
inductive Got (s : Sys) (p : Packet) (o : Outside) : Prop where
  | found (f : FlowId) (dir : Bool) : s.Live f → (s.flow f).SameTuple p → (s.flow f).swapRequested = false →
      s.getFlow p o = (some (f, dir, false), s) → (dir = true ↔ (s.flow f).Forward p) → Got s p o
  | swapped (f : FlowId) : s.Live f → (s.flow f).SameTuple p → Fits s (s.flow f) p → (s.flow f).swapRequested = true →
      s.getFlow p o = (some (f, portsForward p ((s.flow f).swap s.prefs.flowSwapHeuristic), false),
        s.setFlow f ((s.flow f).swap s.prefs.flowSwapHeuristic)) → Got s p o
  | none : (∀ f, s.Live f → ¬ (s.flow f).SameTuple p) → s.getFlow p o = (none, s) → Got s p o
  | added : (∀ f, s.Live f → ¬ (s.flow f).SameTuple p) → Copied p o →
      s.getFlow p o = (some (s.created, true, true), s.add p o) → Got s p o

theorem Inv.got (h : Inv s) {o : Outside} (hok : Fine s (.packet p o)) : Got s p o := by
  by_cases hex : ∃ f, s.Live f ∧ (s.flow f).SameTuple p
  · obtain ⟨f, hl, ht⟩ := hex
    have hf := hok.1 f hl ht
    obtain ⟨dir, hdir, hfind⟩ := h.find_eq hl ht hf
    cases hr : (s.flow f).swapRequested with
    | false =>
      rw [hr] at hfind
      exact .found f dir hl ht hr (by simp [Sys.getFlow, hfind]) hdir
    | true =>
      rw [hr] at hfind
      exact .swapped f hl ht hf hr (by simp [Sys.getFlow, hfind, portsForward])
  · have hno : ∀ f, s.Live f → ¬ (s.flow f).SameTuple p := fun f hl ht => hex ⟨f, hl, ht⟩
    have hfind := find_none hno
    by_cases hc : o.createIfMissing = true ∧ o.emptyRoom = true ∧ o.flowOk = true
    · exact .added hno (hok.2 hno hc.1 hc.2.1 hc.2.2) (by simp [Sys.getFlow, hfind, hc])
    · refine .none hno ?_
      have hc' : (!o.createIfMissing || !o.emptyRoom || !o.flowOk) = true := by
        simp only [Bool.or_eq_true, Bool.not_eq_true', Bool.eq_false_iff]
        tauto
      simp only [Sys.getFlow, hfind, hc', if_true]

/-! ## One packet -/

/-- The direction read off the ports is that of the packet. -/
theorem Fits.portsForward_iff {f : Flow} (ht : f.SameTuple p) (h : Fits s f p) (hr : f.swapRequested = true) :
    portsForward p (f.swap s.prefs.flowSwapHeuristic) = true ↔ (f.swap s.prefs.flowSwapHeuristic).Forward p := by
  cases hpref : s.prefs.flowSwapHeuristic with
  | false =>
    have hf : f.Forward p := h.swapOff hr hpref
    have hs : f.swap false = f := rfl
    rw [hs, Lookup.portsForward_iff]
    exact ⟨fun _ => hf, fun _ => ⟨hf.cliPort.symm, hf.srvPort.symm⟩⟩
  | true =>
    obtain ⟨hboth, hsame⟩ := h.swapOn hr hpref
    obtain ⟨-, -, hcp, hsp⟩ := swap_fields hboth
    rw [Lookup.portsForward_iff, swap_forward hboth, hcp, hsp]
    refine ⟨fun ⟨h1, h2⟩ => ?_, fun hb => ⟨hb.srvPort.symm, hb.cliPort.symm⟩⟩
    rcases ht with hf | hb
    · refine hsame ?_
      rw [hf.cliPort, h1]
    · exact hb

theorem Sys.setFlow_flow (s : Sys) (f : FlowId) (v : Flow) : (s.setFlow f v).flow f = v := Function.update_self ..

/-- A packet takes one turn: the state that `getFlow` leaves is the state after it. -/
theorem Inv.turn (h : Inv s) {o : Outside} (hok : Fine s (.packet p o)) (n : Nat) :
    Sys.preGetFlow p o (n + 1) s = some (s.getFlow p o) := by
  unfold Sys.preGetFlow
  cases h.got hok with
  | found f dir hl ht hr hget hdir => simp [hget, hr]
  | swapped f hl ht hf hr hget =>
    simp only [hget, Sys.setFlow_flow]
    cases hpref : s.prefs.flowSwapHeuristic with
    | false =>
      have hdir : portsForward p ((s.flow f).swap false) = true := by
        have hiff := hf.portsForward_iff ht hr
        rw [hpref] at hiff
        exact hiff.mpr (hf.swapOff hr hpref)
      simp [hdir]
    | true => simp [Flow.swap]
  | none hno hget => simp only [hget]
  | added hno hc hget =>
    have hnew : ((s.add p o).flow s.created).swapRequested = false := by
      simp [Sys.add, newFlow]
    simp [hget, hnew]

theorem Inv.packetOk (h : Inv s) {o : Outside} (hok : Fine s (.packet p o)) : PacketOk s p o where
  bothWays := hash_reverse s p
  linked := by
    intro f dir s' hget
    cases h.got hok with
    | found _ _ _ _ _ hget' _ => rw [hget'] at hget; cases hget
    | swapped _ _ _ _ _ hget' => rw [hget'] at hget; cases hget
    | none _ hget' => rw [hget'] at hget; cases hget
    | added _ hc hget' =>
      rw [hget'] at hget
      cases hget
      simp only [Sys.add, (newFlow_key hc).2.1, Sys.hash, Function.update_self]
      exact List.mem_cons_self ..
  found := by
    intro b f hb hidle hsome
    have hl : s.Live f := ⟨⟨b, hb⟩, hidle⟩
    have ht := equal_isSome hsome
    obtain ⟨dir, -, hfind⟩ := h.find_eq hl ht (hok.1 f hl ht)
    cases hr : (s.flow f).swapRequested with
    | false =>
      rw [hr] at hfind
      exact .inl ⟨dir, hfind⟩
    | true =>
      rw [hr] at hfind
      exact .inr hfind
  direction := by
    intro f dir new s' hget
    cases h.got hok with
    | found _ _ _ ht _ hget' hdir =>
      rw [hget'] at hget
      cases hget
      rw [hdir]
      exact SameTuple.forward_iff ht
    | swapped f' hl ht hf hr hget' =>
      rw [hget'] at hget
      cases hget
      have hboth : s.prefs.flowSwapHeuristic = true → (s.flow f).bothPeers = true := fun hp => (hf.swapOn hr hp).1
      rw [hf.portsForward_iff ht hr, Sys.setFlow_flow]
      exact SameTuple.forward_iff ((swap_sameTuple hboth p).mpr ht)
    | none _ hget' => rw [hget'] at hget; cases hget
    | added _ hc hget' =>
      rw [hget'] at hget
      cases hget
      have hforward := (newFlow_key hc).2.2
      have hnew : (s.add p o).flow s.created = newFlow p o := Function.update_self ..
      rw [hnew]
      exact ⟨fun _ => ⟨hforward.cliIpAddr, hforward.cliPort⟩, fun _ => rfl⟩
  terminates := ⟨1, by rw [h.turn hok 0]; rfl⟩

/-! ## The retry -/

/-- The packet is sent back to the start: its flow waits for a swap that is switched off. -/
structure Retries (s : Sys) (p : Packet) (f : FlowId) : Prop where
  off : s.prefs.flowSwapHeuristic = false
  waits : s.find p = (none, some f)
  backward : portsForward p (s.flow f) = false

def Sys.marked (s : Sys) (f : FlowId) : Sys := s.setFlow f { s.flow f with swapDone := true }

/-- The mark does not show in a lookup. -/
theorem marked_find (s : Sys) (f : FlowId) (p : Packet) : (s.marked f).find p = s.find p := by
  have hflow : ∀ g, ((s.marked f).flow g).idle = (s.flow g).idle ∧
      ((s.marked f).flow g).swapRequested = (s.flow g).swapRequested ∧
      (s.marked f).equal ((s.marked f).flow g) p = s.equal (s.flow g) p := by
    intro g
    by_cases hg : g = f
    · subst hg
      rw [Sys.marked, Sys.setFlow_flow]
      exact ⟨rfl, rfl, rfl⟩
    · rw [show (s.marked f).flow g = s.flow g from Function.update_of_ne hg ..]
      exact ⟨rfl, rfl, rfl⟩
  have hloop : ∀ l, (s.marked f).findLoop p l = s.findLoop p l := by
    intro l
    induction l with
    | nil => rfl
    | cons g rest ih => simp only [Sys.findLoop, hflow, ih]
  have hbucket : (s.marked f).table ((s.marked f).hash p) = s.table (s.hash p) := rfl
  simp only [Sys.find, hbucket, hloop, hflow]

theorem find_waits {f : FlowId} (h : s.find p = (none, some f)) : (s.flow f).swapRequested = true := by
  unfold Sys.find at h
  split at h
  · cases h
  · split at h
    · cases h
      assumption
    · cases h

theorem Retries.marked {f : FlowId} (h : Retries s p f) : Retries (s.marked f) p f := by
  refine ⟨h.off, by rw [marked_find, h.waits], ?_⟩
  rw [Sys.marked, Sys.setFlow_flow]
  exact h.backward

theorem Retries.turn {f : FlowId} (h : Retries s p f) (o : Outside) (n : Nat) :
    Sys.preGetFlow p o (n + 1) s = Sys.preGetFlow p o n (s.marked f) := by
  have hself : s.setFlow f (s.flow f) = s := by simp [Sys.setFlow]
  have hswap : (s.flow f).swap s.prefs.flowSwapHeuristic = s.flow f := by simp [Flow.swap, h.off]
  have hget : s.getFlow p o = (some (f, false, false), s) := by
    simp only [Sys.getFlow, h.waits, hswap, hself, Prod.mk.injEq, Option.some.injEq, and_true, true_and]
    exact h.backward
  simp [Sys.preGetFlow, hget, find_waits h.waits, Sys.marked]

theorem Retries.forever {f : FlowId} (h : Retries s p f) (o : Outside) (n : Nat) :
    Sys.preGetFlow p o n s = none := by
  induction n generalizing s with
  | zero => rfl
  | succ n ih =>
    rw [h.turn o n]
    exact ih h.marked

/-- A packet that takes a second turn takes every turn. -/
theorem preGetFlow_stuck {o : Outside} (h : Sys.preGetFlow p o 2 s = none) (n : Nat) :
    Sys.preGetFlow p o n s = none := by
  suffices ∃ f, Retries s p f by
    obtain ⟨f, hf⟩ := this
    exact hf.forever o n
  cases hfind : s.find p with
  | mk found waits =>
    cases found with
    | some r =>
      obtain ⟨f, dir⟩ := r
      exfalso
      have hget : s.getFlow p o = (some (f, dir, false), s) := by simp [Sys.getFlow, hfind]
      have hr : (s.flow f).swapRequested = false := by
        unfold Sys.find at hfind
        split at hfind
        · cases hfind
        · split at hfind
          · cases hfind
          · rename_i hno
            cases hfind
            simpa using hno
      simp [Sys.preGetFlow, hget, hr] at h
    | none =>
      cases waits with
      | none =>
        exfalso
        by_cases hc : (!o.createIfMissing || !o.emptyRoom || !o.flowOk) = true
        · have hget : s.getFlow p o = (none, s) := by simp only [Sys.getFlow, hfind, hc, if_true]
          simp [Sys.preGetFlow, hget] at h
        · have hget : s.getFlow p o = (some (s.created, true, true), s.add p o) := by
            simp only [Sys.getFlow, hfind, hc]
            rfl
          have hnew : ((s.add p o).flow s.created).swapRequested = false := by simp [Sys.add, newFlow]
          simp [Sys.preGetFlow, hget, hnew] at h
      | some f =>
        have hget : s.getFlow p o = (some (f, portsForward p ((s.flow f).swap s.prefs.flowSwapHeuristic), false),
            s.setFlow f ((s.flow f).swap s.prefs.flowSwapHeuristic)) := by simp [Sys.getFlow, hfind, portsForward]
        cases hpref : s.prefs.flowSwapHeuristic with
        | true =>
          rw [hpref] at hget
          simp [Sys.preGetFlow, hget, Sys.setFlow_flow, Flow.swap] at h
        | false =>
          have hswap : (s.flow f).swap false = s.flow f := rfl
          rw [hpref, hswap] at hget
          refine ⟨f, hpref, hfind, ?_⟩
          cases hports : portsForward p (s.flow f) with
          | false => rfl
          | true =>
            rw [hports] at hget
            simp [Sys.preGetFlow, hget] at h

/-! ## Runs -/

theorem Inv.setFlow (h : Inv s) {f : FlowId} {v : Flow} (hkey : v.computeKey = (s.flow f).computeKey)
    (hidle : v.idle = false → (s.flow f).idle = false)
    (htuple : s.Live f → ∀ p, v.SameTuple p → (s.flow f).SameTuple p) : Inv (s.setFlow f v) := by
  have hlive : ∀ g, (s.setFlow f v).Live g → s.Live g := by
    rintro g ⟨hb, hg⟩
    refine ⟨hb, ?_⟩
    by_cases hgf : g = f
    · subst hgf
      rw [Sys.setFlow_flow] at hg
      exact hidle hg
    · simpa [Sys.setFlow, Function.update_of_ne hgf] using hg
  have hsame : ∀ g, s.Live g → ∀ p, ((s.setFlow f v).flow g).SameTuple p → (s.flow g).SameTuple p := by
    intro g hg p hp
    by_cases hgf : g = f
    · subst hgf
      rw [Sys.setFlow_flow] at hp
      exact htuple hg p hp
    · simpa [Sys.setFlow, Function.update_of_ne hgf] using hp
  refine ⟨h.numbered, h.linked, ?_, ?_⟩
  · intro b g hg
    by_cases hgf : g = f
    · subst hgf
      rw [Sys.setFlow_flow, hkey]
      exact h.key b g hg
    · rw [show (s.setFlow f v).flow g = s.flow g from Function.update_of_ne hgf ..]
      exact h.key b g hg
  · intro g g' hg hg' p hp hp'
    exact h.unique g g' (hlive g hg) (hlive g' hg') p (hsame g (hlive g hg) p hp) (hsame g' (hlive g' hg') p hp')

theorem sameTuple_of_flags (f : Flow) {swapRequested swapDone idle : Bool}
    (h : { f with swapRequested := swapRequested, swapDone := swapDone, idle := idle : Flow }.SameTuple p) :
    f.SameTuple p := by
  simpa only [Flow.SameTuple, forward_iff] using h

theorem Inv.swap (h : Inv s) {f : FlowId} {b : Bool} (hb : b = true → s.Live f → (s.flow f).bothPeers) :
    Inv (s.setFlow f ((s.flow f).swap b)) := by
  refine h.setFlow (computeKey_swap _ b) (by rw [swap_idle]; exact id) fun hl p => ?_
  exact (swap_sameTuple (fun ht => hb ht hl) p).mp

/-- What `Forward` compares. -/
def Packet.tuple (p : Packet) : UInt32 × UInt16 × UInt8 × IpAddress × IpAddress × UInt16 × UInt16 :=
  (p.privateFlowId, p.vlanId, p.protocol, p.srcIp, p.dstIp, p.srcPort, p.dstPort)

theorem Flow.Forward.tuple_eq {f : Flow} {q : Packet} (h : f.Forward p) (h' : f.Forward q) : p.tuple = q.tuple := by
  have hs : p.srcIp = q.srcIp := Option.some.inj (h.cliIpAddr.symm.trans h'.cliIpAddr)
  have hd : p.dstIp = q.dstIp := Option.some.inj (h.srvIpAddr.symm.trans h'.srvIpAddr)
  simp only [Packet.tuple, hs, hd, ← h.privateFlowId, ← h.vlanId, ← h.protocol, ← h.cliPort, ← h.srvPort,
    h'.privateFlowId, h'.vlanId, h'.protocol, h'.cliPort, h'.srvPort]

theorem sameTuple_of_tuple_eq {f : Flow} {q : Packet} (h : p.tuple = q.tuple) (hf : f.SameTuple q) : f.SameTuple p := by
  simp only [Packet.tuple, Prod.mk.injEq] at h
  obtain ⟨h1, h2, h3, h4, h5, h6, h7⟩ := h
  simpa only [Flow.SameTuple, forward_iff, Packet.reverse, h1, h2, h3, h4, h5, h6, h7] using hf

/-- The packets of the addresses and ports of a flow have one tuple, up to the direction. -/
theorem sameTuple_trans {f g : Flow} {q : Packet} (hg : g.Forward p) (hq : g.SameTuple q) (hf : f.SameTuple q) :
    f.SameTuple p := by
  rcases hq with hq | hq
  · exact sameTuple_of_tuple_eq (hg.tuple_eq hq) hf
  · exact sameTuple_of_tuple_eq (hg.tuple_eq hq) hf.symm

theorem Inv.add (h : Inv s) {o : Outside} (hc : Copied p o) (hno : ∀ f, s.Live f → ¬ (s.flow f).SameTuple p) :
    Inv (s.add p o) := by
  obtain ⟨hkey, hflowKey, hforward⟩ := newFlow_key hc
  have hmem : ∀ b f, f ∈ (s.add p o).table b → f = s.created ∧ b = s.hash p ∨ f ≠ s.created ∧ f ∈ s.table b := by
    intro b f hf
    simp only [Sys.add, hflowKey] at hf
    by_cases hb : b = p.sum % s.numHashes
    · subst hb
      rw [Function.update_self] at hf
      rcases List.mem_cons.mp hf with rfl | hf
      · exact .inl ⟨rfl, rfl⟩
      · exact .inr ⟨Nat.ne_of_lt (h.numbered _ f hf), hf⟩
    · rw [Function.update_of_ne hb] at hf
      exact .inr ⟨Nat.ne_of_lt (h.numbered b f hf), hf⟩
  have hnew : (s.add p o).flow s.created = newFlow p o := Function.update_self ..
  have hold : ∀ f, f ≠ s.created → (s.add p o).flow f = s.flow f := fun f hf => Function.update_of_ne hf ..
  have hcreator : (s.add p o).creator s.created = p := Function.update_self ..
  have hcreator' : ∀ f, f ≠ s.created → (s.add p o).creator f = s.creator f := fun f hf => Function.update_of_ne hf ..
  have hlive : ∀ f, (s.add p o).Live f → f = s.created ∨ f ≠ s.created ∧ s.Live f := by
    rintro f ⟨⟨b, hb⟩, hidle⟩
    rcases hmem b f hb with ⟨rfl, -⟩ | ⟨hne, hb⟩
    · exact .inl rfl
    · rw [hold f hne] at hidle
      exact .inr ⟨hne, ⟨b, hb⟩, hidle⟩
  -- a packet of the new flow is no packet of an old one
  have hapart : ∀ f, s.Live f → ∀ q, (newFlow p o).SameTuple q → ¬ (s.flow f).SameTuple q :=
    fun f hl q hq hf => hno f hl (sameTuple_trans hforward hq hf)
  refine ⟨?_, ?_, ?_, ?_⟩
  · intro b f hf
    rcases hmem b f hf with ⟨rfl, -⟩ | ⟨-, hf⟩
    · exact Nat.lt_succ_self _
    · exact Nat.lt_succ_of_lt (h.numbered b f hf)
  · intro b f hf
    rcases hmem b f hf with ⟨rfl, rfl⟩ | ⟨hne, hf⟩
    · rw [hcreator]
      rfl
    · rw [hcreator' f hne]
      exact h.linked b f hf
  · intro b f hf
    rcases hmem b f hf with ⟨rfl, rfl⟩ | ⟨hne, hf⟩
    · rw [hcreator, hnew, hkey]
    · rw [hcreator' f hne, hold f hne]
      exact h.key b f hf
  · intro f g hf hg q hfq hgq
    rcases hlive f hf with rfl | ⟨hfne, hfl⟩ <;> rcases hlive g hg with rfl | ⟨hgne, hgl⟩
    · rfl
    · rw [hnew] at hfq
      rw [hold g hgne] at hgq
      exact absurd hgq (hapart g hgl q hfq)
    · rw [hnew] at hgq
      rw [hold f hfne] at hfq
      exact absurd hfq (hapart f hfl q hgq)
    · rw [hold f hfne] at hfq
      rw [hold g hgne] at hgq
      exact h.unique f g hfl hgl q hfq hgq

theorem step_packet (h : Inv s) {o : Outside} (hok : Fine s (.packet p o)) :
    step s (.packet p o) = (s.getFlow p o).2 := by
  simp only [step, h.turn hok 1]

theorem step_inv (s : Sys) (e : Ev) (h : Inv s) (hok : Fine s e) : Inv (step s e) := by
  cases e with
  | packet p o =>
    rw [step_packet h hok]
    cases h.got hok with
    | found _ _ _ _ _ hget _ => rw [hget]; exact h
    | swapped f hl _ hf hr hget =>
      rw [hget]
      exact h.swap fun hp _ => (hf.swapOn hr hp).1
    | none _ hget => rw [hget]; exact h
    | added hno hc hget =>
      rw [hget]
      exact h.add hc hno
  | requestSwap f =>
    simp only [step]
    split
    · exact h.setFlow rfl id fun _ _ => sameTuple_of_flags (s.flow f)
    · exact h
  | withdrawSwap f => exact h.setFlow rfl id fun _ _ => sameTuple_of_flags (s.flow f)
  | swap f => exact h.swap fun hp hl => hok hp hl
  | idle f => exact h.setFlow rfl (fun hi => by cases hi) fun _ _ => sameTuple_of_flags (s.flow f)
  | purge f =>
    simp only [step]
    split
    · have hsub : ∀ b g, g ∈ (s.table b).erase f → g ∈ s.table b := fun b g hg => List.mem_of_mem_erase hg
      have hlive : ∀ g, ({ s with table := fun b => (s.table b).erase f } : Sys).Live g → s.Live g :=
        fun g ⟨⟨b, hb⟩, hidle⟩ => ⟨⟨b, hsub b g hb⟩, hidle⟩
      exact ⟨fun b g hg => h.numbered b g (hsub b g hg), fun b g hg => h.linked b g (hsub b g hg),
        fun b g hg => h.key b g (hsub b g hg), fun g g' hg hg' => h.unique g g' (hlive g hg) (hlive g' hg')⟩
    · exact h
  | setPrefs prefs => exact ⟨h.numbered, h.linked, h.key, h.unique⟩
  | setHostMac _ m => exact ⟨h.numbered, h.linked, h.key, h.unique⟩

/-- In a run that meets the condition every flow stays in the bucket of the packet that created it, and every
    packet finds its flow, in the right direction and in finitely many turns. -/
theorem packets_find_their_flow (numHashes : UInt32) (prefs : Prefs) (evs : List Ev)
    (hok : Along step Fine (start numHashes prefs) evs) :
    Always step TableOk (start numHashes prefs) evs ∧ Along step EvOk (start numHashes prefs) evs := by
  have h0 := start_inv numHashes prefs
  refine ⟨always_of_inv step step_inv (fun _ h => h.linked) h0 hok, along_of_inv step step_inv ?_ h0 hok⟩
  intro s e h hfine
  cases e with
  | packet p o => exact h.packetOk hfine
  | _ => trivial

def web : Packet :=
  { srcMac := none, dstMac := none, srcIp := .v4 1, dstIp := .v4 2, srcPort := 1000, dstPort := 2000, vlanId := 0
    privateFlowId := 0, protocol := 6, icmpInfo := none }

def plenty : Outside :=
  { createIfMissing := true, emptyRoom := true, flowOk := true, cliHost := some 1, srvHost := some 2, cliIpOk := true
    srvIpOk := true, icmpOk := true, unreachOk := true }

/-- A swap is requested, and the server answers. -/
theorem packets_find_their_flow_swapped :
    Always step TableOk (start 64 ⟨true, false⟩) [.packet web plenty, .requestSwap 0, .packet web.reverse plenty] ∧
      Along step EvOk (start 64 ⟨true, false⟩) [.packet web plenty, .requestSwap 0, .packet web.reverse plenty] := by
  have hcopied : ∀ p : Packet, p.icmpInfo = none → Copied p plenty := fun p hp => ⟨.inl rfl, .inl rfl, .inl (by rw [hp]; rfl)⟩
  have hfirst : Fine (start 64 ⟨true, false⟩) (.packet web plenty) := by
    refine ⟨?_, fun _ _ _ _ => hcopied web rfl⟩
    rintro f ⟨⟨b, hb⟩, -⟩
    cases hb
  have hinv := step_inv _ (.requestSwap 0) (step_inv _ _ (start_inv 64 ⟨true, false⟩) hfirst) trivial
  refine packets_find_their_flow 64 ⟨true, false⟩ _ ⟨hfirst, trivial, ⟨?_, fun _ _ _ _ => hcopied _ rfl⟩, trivial⟩
  rintro f ⟨⟨b, hb⟩, -⟩ -
  have hf : f = 0 := Nat.lt_one_iff.mp (hinv.numbered b f hb)
  subst hf
  refine ⟨.inr ⟨by decide, (forward_iff _ _).not.mpr (by decide)⟩, by decide, fun _ _ => ⟨by decide, ?_⟩, ?_⟩
  · intro hports
    exact absurd hports (by decide)
  · intro _ hoff
    cases hoff

/-- A swap is requested, the preference is switched off, and the server answers. -/
theorem switched_off_swap_never_ends :
    ¬ ∀ (numHashes : UInt32) (prefs : Prefs) (evs : List Ev),
      Always step TableOk (start numHashes prefs) evs ∧ Along step EvOk (start numHashes prefs) evs := by
  intro hall
  have h := (hall 64 ⟨true, false⟩
    [.packet web plenty, .requestSwap 0, .setPrefs ⟨false, false⟩, .packet web.reverse plenty]).2
  obtain ⟨n, hn⟩ := h.2.2.2.1.terminates
  have hr : Retries (run step (start 64 ⟨true, false⟩)
      [.packet web plenty, .requestSwap 0, .setPrefs ⟨false, false⟩]) web.reverse 0 :=
    ⟨by decide, by decide, by decide⟩
  have hnone := hr.forever plenty n
  simp only [run_cons, run_nil] at hnone
  rw [hnone] at hn
  cases hn

end Ntopng.Flows.Lookup
