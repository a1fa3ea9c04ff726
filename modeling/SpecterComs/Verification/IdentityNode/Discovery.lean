import SpecterComs.Model.IdentityNode.Discovery

/-! # One media node for a channel

A ticket is given the node that the directory prefers when it is asked for. Nothing ties the node to
the sessions that the channel has by then, so the users of a channel share a node exactly as long as
the directories that their tickets were chosen from prefer the same one.
-/

namespace SpecterComs.Discovery

open DeliveryService (UserId)

variable {config : Config}

/-! ## What the directory prefers -/

namespace Directory

variable {d : Directory} {orgId : String} {n m : MediaNode} {url : Url}

/-- The organization has been assigned a node that is online. -/
structure Assigned (d : Directory) (orgId : String) (n : MediaNode) : Prop where
  mem : n ∈ d.nodes
  assignment : d.assignments orgId = some n.nodeId
  online : d.online n = true

/-- A shared node in service that is online. -/
structure Eligible (d : Directory) (n : MediaNode) : Prop where
  mem : n ∈ d.nodes
  shared : n.tenancyMode = .shared
  inService : n.inService = true
  online : d.online n = true

/-- No eligible node has a lower load, and none with the same load is scanned before. -/
structure Preferred (config : Config) (d : Directory) (n : MediaNode) : Prop where
  eligible : d.Eligible n
  least : ∀ m, d.Eligible m → n.load config ≤ m.load config
  first : ∀ m, d.Eligible m → m.load config ≤ n.load config →
    d.candidates.idxOf n ≤ d.candidates.idxOf m

theorem mem_assigned : n ∈ d.assigned orgId ↔ d.Assigned orgId n := by
  simp only [assigned, List.mem_filter, decide_eq_true_eq]
  exact ⟨fun ⟨hmem, hassigned, honline⟩ => ⟨hmem, hassigned, honline⟩,
    fun h => ⟨h.mem, h.assignment, h.online⟩⟩

theorem mem_candidates : n ∈ d.candidates ↔ d.Eligible n := by
  simp only [candidates, List.mem_filter, decide_eq_true_eq]
  exact ⟨fun ⟨hmem, hshared, hservice, honline⟩ => ⟨hmem, hshared, hservice, honline⟩,
    fun h => ⟨h.mem, h.shared, h.inService, h.online⟩⟩

/-- An organization is assigned one node. -/
theorem Assigned.unique (hn : d.Assigned orgId n) (hm : d.Assigned orgId m) : n = m :=
  List.inj_on_of_nodup_map d.nodup hn.mem hm.mem
    (Option.some.inj (hn.assignment.symm.trans hm.assignment))

theorem getNodeForOrg_eq_some :
    d.getNodeForOrg orgId = some url ↔ ∃ n, d.Assigned orgId n ∧ n.publicUrl = url := by
  rw [getNodeForOrg, Option.map_eq_some_iff]
  refine exists_congr fun n => and_congr_left fun _ => ?_
  constructor
  · intro h
    exact mem_assigned.mp (List.mem_of_head? h)
  · intro h
    obtain ⟨m, hm⟩ := Option.isSome_iff_exists.mp
      (List.isSome_head?.mpr (List.ne_nil_of_mem (mem_assigned.mpr h)))
    rw [hm, h.unique (mem_assigned.mp (List.mem_of_head? hm))]

theorem getNodeForOrg_eq_none :
    d.getNodeForOrg orgId = none ↔ ∀ n, ¬ d.Assigned orgId n := by
  simp only [Option.eq_none_iff_forall_ne_some, ne_eq, getNodeForOrg_eq_some]
  exact ⟨fun h n hn => h _ ⟨n, hn, rfl⟩, fun h _ ⟨n, hn, _⟩ => h n hn⟩

theorem argmin_candidates :
    d.candidates.argmin (MediaNode.load config) = some n ↔ d.Preferred config n := by
  rw [List.argmin_eq_some_iff]
  simp only [mem_candidates]
  exact ⟨fun ⟨heligible, hleast, hfirst⟩ => ⟨heligible, hleast, hfirst⟩,
    fun h => ⟨h.eligible, h.least, h.first⟩⟩

theorem getBestSharedNode_eq_some :
    d.getBestSharedNode config = some url ↔ ∃ n, d.Preferred config n ∧ n.publicUrl = url := by
  rw [getBestSharedNode, Option.map_eq_some_iff]
  exact exists_congr fun n => and_congr_left fun _ => argmin_candidates

theorem getBestSharedNode_eq_none :
    d.getBestSharedNode config = none ↔ ∀ n, ¬ d.Eligible n := by
  rw [getBestSharedNode, Option.map_eq_none_iff, List.argmin_eq_none,
    List.eq_nil_iff_forall_not_mem]
  exact forall_congr' fun n => not_congr mem_candidates

end Directory

/-- The directories that were read prefer this node for the organization. -/
inductive Reading.Prefers (config : Config) (r : Reading) (orgId : String) : Url → Prop
  | assigned {n : MediaNode} : r.forOrg.Assigned orgId n → Prefers config r orgId n.publicUrl
  | shared {n : MediaNode} : (∀ m, ¬ r.forOrg.Assigned orgId m) → r.shared.Preferred config n →
      Prefers config r orgId n.publicUrl
  | active : (∀ m, ¬ r.forOrg.Assigned orgId m) → (∀ m, ¬ r.shared.Eligible m) →
      r.active.silent = false → Prefers config r orgId r.active.activeMediaUrl
  | fallback : (∀ m, ¬ r.forOrg.Assigned orgId m) → (∀ m, ¬ r.shared.Eligible m) →
      r.active.silent = true → Prefers config r orgId (Directory.fallback config)

theorem Reading.prefers_mediaUrl (r : Reading) (orgId : String) :
    r.Prefers config orgId (r.mediaUrl config orgId) := by
  cases hassigned : r.forOrg.getNodeForOrg orgId with
  | some url =>
      obtain ⟨n, hn, rfl⟩ := Directory.getNodeForOrg_eq_some.mp hassigned
      rw [mediaUrl, hassigned]
      exact .assigned hn
  | none =>
      have hnone := Directory.getNodeForOrg_eq_none.mp hassigned
      cases hshared : r.shared.getBestSharedNode config with
      | some url =>
          obtain ⟨n, hn, rfl⟩ := Directory.getBestSharedNode_eq_some.mp hshared
          rw [mediaUrl, hassigned, hshared]
          exact .shared hnone hn
      | none =>
          have heligible := Directory.getBestSharedNode_eq_none.mp hshared
          rw [mediaUrl, hassigned, hshared]
          dsimp only [Option.or, Option.getD, Directory.getActiveMediaUrl]
          split
          · rename_i hsilent
            exact .fallback hnone heligible hsilent
          · rename_i hsilent
            exact .active hnone heligible (Bool.eq_false_of_not_eq_true hsilent)

/-- A ticket is given the preferred node. -/
theorem Reading.prefers_iff {r : Reading} {orgId : String} {url : Url} :
    r.Prefers config orgId url ↔ r.mediaUrl config orgId = url := by
  constructor
  · intro h
    cases h with
    | assigned hn =>
        rw [mediaUrl, Directory.getNodeForOrg_eq_some.mpr ⟨_, hn, rfl⟩]
        rfl
    | shared hnone hn =>
        rw [mediaUrl, Directory.getNodeForOrg_eq_none.mpr hnone,
          Directory.getBestSharedNode_eq_some.mpr ⟨_, hn, rfl⟩]
        rfl
    | active hnone heligible hsilent =>
        rw [mediaUrl, Directory.getNodeForOrg_eq_none.mpr hnone,
          Directory.getBestSharedNode_eq_none.mpr heligible]
        exact if_neg (Bool.eq_false_iff.mp hsilent)
    | fallback hnone heligible hsilent =>
        rw [mediaUrl, Directory.getNodeForOrg_eq_none.mpr hnone,
          Directory.getBestSharedNode_eq_none.mpr heligible]
        exact if_pos hsilent
  · rintro rfl
    exact r.prefers_mediaUrl orgId

/-! ## The users of a channel -/

variable {s t : State config} {i : Input}

/-- Any two users with sessions in a channel are on one node. -/
def State.OneNode (s : State config) : Prop :=
  ∀ a ∈ s.sessions, ∀ b ∈ s.sessions, a.userId ≠ b.userId → a.channelId = b.channelId →
    a.mediaUrl = b.mediaUrl

/-- A ticket was chosen from directories that prefer the node of every other user in the channel. -/
def Guarded (s : State config) : Input → Prop
  | .connect ticket => ∀ t, s.tickets[ticket]? = some t → ∀ x ∈ s.sessions, x.userId ≠ t.userId →
      x.channelId = t.channelId → t.reading.Prefers config t.orgId x.mediaUrl
  | _ => True

theorem State.OneNode.mono (h : s.OneNode) (hsub : t.sessions ⊆ s.sessions) : t.OneNode :=
  fun a ha b hb => h a (hsub ha) b (hsub hb)

/-- A user who joins is on the node of the others exactly if the ticket was chosen for it. -/
theorem State.OneNode.accept (h : s.OneNode) (ticket : Ticket config) :
    (s.accept ticket).OneNode ↔ ∀ x ∈ s.sessions, x.userId ≠ ticket.userId →
      x.channelId = ticket.channelId → ticket.reading.Prefers config ticket.orgId x.mediaUrl := by
  constructor
  · intro hone x hx huser hchannel
    have hin : x ∈ (s.accept ticket).sessions := by
      refine List.mem_cons_of_mem _ (List.mem_filter.mpr ⟨hx, decide_eq_true ?_⟩)
      rintro rfl
      exact huser rfl
    rw [Reading.prefers_iff, ← ticket.chosen]
    exact (hone x hin ticket.session List.mem_cons_self huser hchannel).symm
  · intro hprefers
    have hjoin : ∀ x ∈ s.sessions, x.userId ≠ ticket.userId → x.channelId = ticket.channelId →
        x.mediaUrl = ticket.mediaUrl := fun x hx huser hchannel =>
      ticket.chosen.trans (Reading.prefers_iff.mp (hprefers x hx huser hchannel)) |>.symm
    intro a ha b hb huser hchannel
    rcases List.mem_cons.mp ha with rfl | ha
    · rcases List.mem_cons.mp hb with rfl | hb
      · rfl
      · exact (hjoin b (List.mem_of_mem_filter hb) huser.symm hchannel.symm).symm
    · rcases List.mem_cons.mp hb with rfl | hb
      · exact hjoin a (List.mem_of_mem_filter ha) huser hchannel
      · exact h a (List.mem_of_mem_filter ha) b (List.mem_of_mem_filter hb) huser hchannel

/-- What a step does to the tickets and the sessions. -/
inductive Effect (s : State config) (t : State config) : Input → Prop
  | quiet {i : Input} : (∀ ticket, i ≠ .connect ticket) → t.tickets = s.tickets →
      t.sessions ⊆ s.sessions → Effect s t i
  | sign {request : ℕ} {req : Request} {shared : Directory} : s.requests request = some req →
      t.tickets = s.tickets ++ [sign s.directory req shared] → req.shared = some shared →
      t.sessions = s.sessions → Effect s t (.signTicket request)
  | accept {jti : ℕ} {ticket : Ticket config} : s.tickets[jti]? = some ticket →
      t = s.accept ticket → Effect s t (.connect jti)

theorem Effect.unchanged (hi : ∀ ticket, i ≠ .connect ticket) (htickets : t.tickets = s.tickets)
    (hsessions : t.sessions = s.sessions) : Effect s t i :=
  .quiet hi htickets (hsessions ▸ List.Subset.refl _)

theorem effect_of_step (h : (mediaNodes config).step s i = some t) : Effect s t i := by
  cases i with
  | connect jti =>
      obtain ⟨ticket, hticket, h⟩ := Option.bind_eq_some_iff.mp h
      obtain ⟨-, h⟩ := Option.ite_none_left_eq_some.mp h
      exact .accept hticket (Option.some.inj h).symm
  | signTicket request =>
      obtain ⟨req, hreq, h⟩ := Option.bind_eq_some_iff.mp h
      obtain ⟨shared, hshared, h⟩ := Option.bind_eq_some_iff.mp h
      obtain rfl := Option.some.inj h
      exact .sign hreq rfl hshared rfl
  | close session =>
      obtain ⟨-, h⟩ := Option.ite_none_right_eq_some.mp h
      obtain rfl := Option.some.inj h
      exact .quiet (fun _ => Input.noConfusion) rfl List.erase_subset
  | wait ms =>
      obtain rfl := Option.some.inj h
      exact .unchanged (fun _ => Input.noConfusion) rfl rfl
  | heartbeat hb =>
      obtain rfl := Option.some.inj h
      exact .unchanged (fun _ => Input.noConfusion) rfl rfl
  | updateMediaNode nodeId tenancyMode inService =>
      obtain rfl := Option.some.inj h
      exact .unchanged (fun _ => Input.noConfusion) rfl rfl
  | assignOrgToNode orgId nodeId =>
      obtain ⟨-, h⟩ := Option.ite_none_right_eq_some.mp h
      obtain rfl := Option.some.inj h
      exact .unchanged (fun _ => Input.noConfusion) rfl rfl
  | unassignOrgFromNode orgId =>
      obtain rfl := Option.some.inj h
      exact .unchanged (fun _ => Input.noConfusion) rfl rfl
  | rescan nodes =>
      dsimp only [mediaNodes] at h
      split at h
      · obtain rfl := Option.some.inj h
        exact .unchanged (fun _ => Input.noConfusion) rfl rfl
      · cases h
  | getNodeForOrg request userId orgId channelId =>
      obtain ⟨-, h⟩ := Option.ite_none_right_eq_some.mp h
      obtain rfl := Option.some.inj h
      exact .unchanged (fun _ => Input.noConfusion) rfl rfl
  | getBestSharedNode request =>
      obtain ⟨req, -, h⟩ := Option.bind_eq_some_iff.mp h
      obtain ⟨-, h⟩ := Option.ite_none_right_eq_some.mp h
      obtain rfl := Option.some.inj h
      exact .unchanged (fun _ => Input.noConfusion) rfl rfl

theorem oneNode_step (s : State config) (i : Input) (t : State config) (h : s.OneNode)
    (hstep : (mediaNodes config).step s i = some t) :
    (t.OneNode ↔ Guarded s i) ∧ (Guarded s i → t.OneNode) := by
  have hiff : t.OneNode ↔ Guarded s i := by
    cases effect_of_step hstep with
    | quiet hne _ hsub =>
        refine iff_of_true (h.mono hsub) ?_
        cases i with
        | connect jti => exact absurd rfl (hne jti)
        | _ => trivial
    | sign _ _ _ hsessions => exact iff_of_true (h.mono (hsessions ▸ List.Subset.refl _)) trivial
    | @accept jti ticket hticket haccept =>
        rw [haccept, h.accept ticket]
        exact ⟨fun hprefers t ht => Option.some.inj (hticket.symm.trans ht) ▸ hprefers,
          fun hguarded => hguarded ticket hticket⟩
  exact ⟨hiff, hiff.mpr⟩

/-- Throughout a run the users of every channel are on one node, exactly if every ticket that is
used was chosen from directories that prefer the node the channel is on. -/
theorem one_node_iff (config : Config) (d : Directory) (is : List Input) :
    (∀ s i t, (mediaNodes config).Passes (start d) is s i t → t.OneNode) ↔
      ∀ s i t, (mediaNodes config).Passes (start d) is s i t → Guarded s i :=
  StepSystem.passes_iff (P := fun _ _ t => t.OneNode) (C := Guarded) oneNode_step
    (fun _ ha => absurd ha List.not_mem_nil) is

/-! ## A channel with a home -/

/-- A ticket is signed when the directories prefer the node that its channel is to be on. -/
def ForHome (home : String → Url) (s : State config) : Input → Prop
  | .signTicket request => ∀ req, s.requests request = some req →
      ∀ shared, req.shared = some shared →
        Reading.Prefers config ⟨req.forOrg, shared, s.directory⟩ req.orgId (home req.channelId)
  | _ => True

/-- All tickets and all sessions are for the node of their channel. -/
structure State.AtHome (home : String → Url) (s : State config) : Prop where
  tickets : ∀ t ∈ s.tickets, t.mediaUrl = home t.channelId
  sessions : ∀ x ∈ s.sessions, x.mediaUrl = home x.channelId

variable {home : String → Url}

theorem State.AtHome.oneNode (h : s.AtHome home) : s.OneNode := by
  intro a ha b hb _ hchannel
  rw [h.sessions a ha, h.sessions b hb, hchannel]

theorem State.AtHome.step {home : String → Url} (h : s.AtHome home) (hguard : ForHome home s i)
    (hstep : (mediaNodes config).step s i = some t) : t.AtHome home := by
  cases effect_of_step hstep with
  | quiet _ htickets hsub =>
      exact ⟨fun x hx => h.tickets x (htickets ▸ hx), fun x hx => h.sessions x (hsub hx)⟩
  | sign hreq htickets hshared hsessions =>
      refine ⟨fun x hx => ?_, fun x hx => h.sessions x (hsessions ▸ hx)⟩
      rw [htickets] at hx
      rcases List.mem_append.mp hx with hx | hx
      · exact h.tickets x hx
      · rw [List.mem_singleton.mp hx]
        exact Reading.prefers_iff.mp (hguard _ hreq _ hshared)
  | @accept jti ticket hticket haccept =>
      rw [haccept]
      refine ⟨h.tickets, fun x hx => ?_⟩
      rcases List.mem_cons.mp hx with rfl | hx
      · exact h.tickets ticket (List.mem_of_getElem? hticket)
      · exact h.sessions x (List.mem_of_mem_filter hx)

/-- Where every ticket is signed for the home of its channel, every channel is on one node. -/
theorem one_node_of_home {d : Directory} {is : List Input}
    (h : (mediaNodes config).Guarded (ForHome home) (start d) is t) : t.OneNode := by
  have hhome : t.AtHome home := h.invariant
    (fun _ _ _ hs hguard hstep => State.AtHome.step hs hguard hstep)
    ⟨fun _ hx => absurd hx List.not_mem_nil, fun _ hx => absurd hx List.not_mem_nil⟩
  exact hhome.oneNode

/-! ## Two users on two nodes -/

/-- The defaults of `config/nodeThresholds.ts`. -/
def Config.standard : Config where
  nodeCpuAlertPct := 80
  nodeMemAlertPct := 85
  nodeBandwidthCapMbps := 800
  nodeBandwidthAlertPct := 80
  activeMediaUrl := none
  tenancyMode := .shared
  inService := false
  cpu_ne_zero := by decide
  mem_ne_zero := by decide
  cap_ne_zero := by decide
  bandwidth_ne_zero := by decide

def Directory.empty : Directory where
  clock := 0
  nodes := []
  nodup := List.nodup_nil
  assignments _ := none
  activeMediaUrl := localhost
  lastSeen := 0

def beat (nodeId url : String) (cpuPct : ℚ) : Heartbeat where
  status := "ok"
  publicUrl := some url
  nodeId := some nodeId
  cpuPct := some cpuPct
  memPct := none
  netRxMbps := none
  netTxMbps := none

/-- A user asks for a ticket and connects with it. -/
def join (n : ℕ) (userId : UserId) : List Input :=
  [.getNodeForOrg n userId "org" "ops", .getBestSharedNode n, .signTicket n, .connect n]

/-- Five seconds after the first user has joined, another node has the lower load. -/
def busier : List Input :=
  [.heartbeat (beat "node-1" "https://node-1" 10), .heartbeat (beat "node-2" "https://node-2" 20),
    .updateMediaNode "node-1" none (some true), .updateMediaNode "node-2" none (some true)] ++
  join 0 "ann" ++
  [.wait 5000, .heartbeat (beat "node-1" "https://node-1" 30),
    .heartbeat (beat "node-2" "https://node-2" 20)] ++
  join 1 "ben"

theorem load_splits_channel :
    ¬ ∀ (config : Config) (d : Directory) (is : List Input) (t : State config),
        (mediaNodes config).Run (start d) is t → t.OneNode := by
  intro h
  have hrun : (((mediaNodes .standard).exec (start .empty) busier).any fun t =>
      decide (t.sessions = [⟨"ben", "ops", ⟨"https://node-2", by decide⟩⟩,
        ⟨"ann", "ops", ⟨"https://node-1", by decide⟩⟩])) = true := by
    decide +kernel
  obtain ⟨t, ht, hsessions⟩ := (Option.any_eq_true _ _).mp hrun
  have hone := h .standard .empty busier t (StepSystem.exec_eq_some_iff.mp ht)
  rw [State.OneNode, of_decide_eq_true hsessions] at hone
  have hurl := hone _ (List.mem_cons_of_mem _ List.mem_cons_self) _ List.mem_cons_self
    (by decide) rfl
  revert hurl
  decide

end SpecterComs.Discovery
