import SpecterComs.Library.StepSystem
import SpecterComs.Model.DeliveryService.ChannelAccess
import Mathlib.Algebra.Order.Field.Rat
import Mathlib.Data.List.MinMax

/-! # The choice of a media node

`utils/discovery.ts`, the choice that `getOrgChannelAccessContext` (`controllers/orgController.ts`)
makes for a ticket, the administration of nodes (`controllers/adminController.ts`), and the voice
sessions that the media nodes accept on a ticket (`media-rust/src/main.rs`). A request for a ticket
runs two queries and then reads the cache; other requests and heartbeats come in between. Requests
that are refused change nothing and are left out, and so are the columns of `media_nodes` that the
choice does not read. Times are in milliseconds.
-/

namespace SpecterComs.Discovery

open DeliveryService (UserId)

/-- A string that is truthy. -/
abbrev Url := {url : String // url ≠ ""}

def truthy (s : Option String) : Option Url :=
  s.bind fun s => if h : s = "" then none else some ⟨s, h⟩

/-! ## Nodes -/

inductive Tenancy
  | shared
  | dedicated
  deriving DecidableEq, Repr

/-- A row of `media_nodes`. -/
structure MediaNode where
  nodeId : String
  publicUrl : Url
  cpuPct : Option ℚ
  memPct : Option ℚ
  netRxMbps : Option ℚ
  netTxMbps : Option ℚ
  tenancyMode : Tenancy
  inService : Bool
  lastHeartbeatAt : ℕ
  deriving DecidableEq, Repr

/-- `config/nodeThresholds.ts`, the environment, and the defaults of `media_nodes`: the schema is
not part of the sources. -/
structure Config where
  nodeCpuAlertPct : ℚ
  nodeMemAlertPct : ℚ
  nodeBandwidthCapMbps : ℚ
  nodeBandwidthAlertPct : ℚ
  activeMediaUrl : Option String
  tenancyMode : Tenancy
  inService : Bool
  /-- The query for a shared node divides by them. -/
  cpu_ne_zero : nodeCpuAlertPct ≠ 0
  mem_ne_zero : nodeMemAlertPct ≠ 0
  cap_ne_zero : nodeBandwidthCapMbps ≠ 0
  bandwidth_ne_zero : nodeBandwidthAlertPct ≠ 0

/-- What `media.heartbeat` carries. -/
structure Heartbeat where
  status : String
  publicUrl : Option String
  nodeId : Option String
  cpuPct : Option ℚ
  memPct : Option ℚ
  netRxMbps : Option ℚ
  netTxMbps : Option ℚ
  deriving DecidableEq, Repr

/-- What the choice of a node reads: the rows in the order of a scan, and the variables of the
module. -/
structure Directory where
  clock : ℕ
  nodes : List MediaNode
  /-- `node_id` is unique. -/
  nodup : (nodes.map MediaNode.nodeId).Nodup
  /-- `org_node_assignments`. -/
  assignments : String → Option String
  activeMediaUrl : Url
  lastSeen : ℕ

/-- `GREATEST` takes no notice of `NULL`. -/
def greatest : Option ℚ → Option ℚ → Option ℚ
  | some a, some b => some (max a b)
  | some a, none => some a
  | none, b => b

def Config.bandwidthAlertMbps (config : Config) : ℚ :=
  config.nodeBandwidthAlertPct / 100 * config.nodeBandwidthCapMbps

/-- What `getBestSharedNode` orders by. -/
def MediaNode.load (config : Config) (n : MediaNode) : ℚ :=
  max (max (n.cpuPct.getD 0 / config.nodeCpuAlertPct) (n.memPct.getD 0 / config.nodeMemAlertPct))
    ((greatest n.netRxMbps n.netTxMbps).getD 0 / config.bandwidthAlertMbps)

namespace Directory

variable (config : Config) (d : Directory)

/-- `last_heartbeat_at > NOW() - INTERVAL '15 seconds'`. -/
def online (n : MediaNode) : Bool :=
  d.clock < n.lastHeartbeatAt + 15000

/-- The rows of the query of `getNodeForOrg`. -/
def assigned (orgId : String) : List MediaNode :=
  d.nodes.filter fun n => d.assignments orgId = some n.nodeId ∧ d.online n

def getNodeForOrg (orgId : String) : Option Url :=
  (d.assigned orgId).head?.map MediaNode.publicUrl

/-- The rows that `getBestSharedNode` orders. -/
def candidates : List MediaNode :=
  d.nodes.filter fun n => n.tenancyMode = .shared ∧ n.inService ∧ d.online n

def getBestSharedNode : Option Url :=
  (d.candidates.argmin (MediaNode.load config)).map MediaNode.publicUrl

def localhost : Url :=
  ⟨"https://localhost:4434", by decide⟩

/-- No heartbeat has come for more than 10 seconds. -/
def silent : Bool :=
  d.lastSeen + 10000 < d.clock

/-- `process.env.ACTIVE_MEDIA_URL || 'https://localhost:4434'`. -/
def fallback : Url :=
  (truthy config.activeMediaUrl).getD localhost

def getActiveMediaUrl : Url :=
  if d.silent then fallback config else d.activeMediaUrl

/-! ## What changes the directory -/

variable {config d}

/-- An update of rows that keeps their ids. -/
def mapNodes (d : Directory) (f : MediaNode → MediaNode) (hf : ∀ n, (f n).nodeId = n.nodeId) :
    Directory where
  clock := d.clock
  nodes := d.nodes.map f
  nodup := by
    have hids : MediaNode.nodeId ∘ f = MediaNode.nodeId := funext hf
    rw [List.map_map, hids]
    exact d.nodup
  assignments := d.assignments
  activeMediaUrl := d.activeMediaUrl
  lastSeen := d.lastSeen

/-- `EXCLUDED` of the upsert, in the place of a row. -/
def excluded (d : Directory) (hb : Heartbeat) (url : Url) (n : MediaNode) : MediaNode where
  nodeId := n.nodeId
  publicUrl := url
  cpuPct := hb.cpuPct
  memPct := hb.memPct
  netRxMbps := hb.netRxMbps
  netTxMbps := hb.netTxMbps
  tenancyMode := n.tenancyMode
  inService := n.inService
  lastHeartbeatAt := d.clock

/-- The row that a first heartbeat inserts. -/
def inserted (config : Config) (d : Directory) (hb : Heartbeat) (url : Url) (nodeId : String) :
    MediaNode where
  nodeId := nodeId
  publicUrl := url
  cpuPct := hb.cpuPct
  memPct := hb.memPct
  netRxMbps := hb.netRxMbps
  netTxMbps := hb.netTxMbps
  tenancyMode := config.tenancyMode
  inService := config.inService
  lastHeartbeatAt := d.clock

/-- `INSERT INTO media_nodes … ON CONFLICT (node_id) DO UPDATE`. -/
def upsert (config : Config) (d : Directory) (hb : Heartbeat) (url : Url) (nodeId : String) :
    Directory :=
  if h : nodeId ∈ d.nodes.map MediaNode.nodeId then
    d.mapNodes (fun n => if n.nodeId = nodeId then d.excluded hb url n else n) fun n => by
      split <;> rfl
  else
    { d with
      nodes := d.nodes ++ [d.inserted config hb url nodeId]
      nodup := by
        rw [List.map_append, List.map_singleton]
        exact d.nodup.append (List.nodup_singleton _) (List.disjoint_singleton.mpr h) }

/-- The callback of `media.heartbeat`. -/
def heartbeat (config : Config) (d : Directory) (hb : Heartbeat) : Directory :=
  match truthy hb.publicUrl with
  | none => d
  | some url =>
      if hb.status = "ok" then
        let d := { d with activeMediaUrl := url, lastSeen := d.clock }
        match truthy hb.nodeId with
        | none => d
        | some nodeId => d.upsert config hb url nodeId
      else d

def updateMediaNode (d : Directory) (nodeId : String) (tenancyMode : Option Tenancy)
    (inService : Option Bool) : Directory :=
  d.mapNodes
    (fun n =>
      if n.nodeId = nodeId then
        { n with
          tenancyMode := tenancyMode.getD n.tenancyMode
          inService := inService.getD n.inService }
      else n)
    fun n => by split <;> rfl

def assign (d : Directory) (orgId : String) (nodeId : Option String) : Directory :=
  { d with assignments := Function.update d.assignments orgId nodeId }

/-- A scan meets the rows in another order. -/
def rescan (d : Directory) (nodes : List MediaNode) (h : nodes.isPerm d.nodes) : Directory :=
  { d with
    nodes := nodes
    nodup := ((List.isPerm_iff.mp h).map MediaNode.nodeId).nodup_iff.mpr d.nodup }

end Directory

/-! ## Tickets and sessions -/

/-- The directory as it was when each of the three places was read. -/
structure Reading where
  forOrg : Directory
  shared : Directory
  active : Directory

/-- `assignedMediaUrl || (await getBestSharedNode()) || getActiveMediaUrl()`. -/
def Reading.mediaUrl (config : Config) (r : Reading) (orgId : String) : Url :=
  ((r.forOrg.getNodeForOrg orgId).or (r.shared.getBestSharedNode config)).getD
    (r.active.getActiveMediaUrl config)

/-- A request for a voice ticket that has passed its checks. -/
structure Request where
  userId : UserId
  orgId : String
  channelId : String
  forOrg : Directory
  /-- What the second query was answered from. -/
  shared : Option Directory

/-- What a request is answered with: the claims of the ticket and `media_url`. -/
structure Ticket (config : Config) where
  userId : UserId
  orgId : String
  channelId : String
  /-- In seconds. -/
  exp : ℕ
  mediaUrl : Url
  /-- Where the choice was made from; nothing but the statements reads it. -/
  reading : Reading
  chosen : mediaUrl = reading.mediaUrl config orgId

/-- A voice session that a media node has accepted and not closed. -/
structure Session where
  userId : UserId
  channelId : String
  /-- The node it is on. -/
  mediaUrl : Url
  deriving DecidableEq, Repr

structure State (config : Config) where
  directory : Directory
  requests : ℕ → Option Request
  tickets : List (Ticket config)
  sessions : List Session

inductive Input
  | wait (ms : ℕ)
  | heartbeat (hb : Heartbeat)
  | updateMediaNode (nodeId : String) (tenancyMode : Option Tenancy) (inService : Option Bool)
  | assignOrgToNode (orgId nodeId : String)
  | unassignOrgFromNode (orgId : String)
  | rescan (nodes : List MediaNode)
  | getNodeForOrg (request : ℕ) (userId : UserId) (orgId channelId : String)
  | getBestSharedNode (request : ℕ)
  | signTicket (request : ℕ)
  /-- A client connects to the node of its ticket. -/
  | connect (ticket : ℕ)
  /-- A session ends: its user leaves, is removed or booted, or the node goes down. -/
  | close (session : Session)
  deriving DecidableEq

variable {config : Config}

def expiresInSeconds : ℕ := 90

def Ticket.session (t : Ticket config) : Session where
  userId := t.userId
  channelId := t.channelId
  mediaUrl := t.mediaUrl

/-- The ticket for a request whose queries have been answered. -/
def sign (d : Directory) (req : Request) (shared : Directory) : Ticket config where
  userId := req.userId
  orgId := req.orgId
  channelId := req.channelId
  exp := d.clock / 1000 + expiresInSeconds
  mediaUrl := Reading.mediaUrl config ⟨req.forOrg, shared, d⟩ req.orgId
  reading := ⟨req.forOrg, shared, d⟩
  chosen := rfl

namespace State

def withDirectory (s : State config) (d : Directory) : State config :=
  { s with directory := d }

/-- `is_token_expired`. -/
def expired (s : State config) (t : Ticket config) : Bool :=
  t.exp ≤ s.directory.clock / 1000

/-- The node boots an older session of the user in the channel. -/
def accept (s : State config) (t : Ticket config) : State config :=
  { s with sessions := t.session :: s.sessions.filter (· ≠ t.session) }

end State

/-- The identity node and the media nodes. -/
def mediaNodes (config : Config) : StepSystem (State config) Input where
  step s
    | .wait ms =>
        some (s.withDirectory { s.directory with clock := s.directory.clock + ms })
    | .heartbeat hb => some (s.withDirectory (s.directory.heartbeat config hb))
    | .updateMediaNode nodeId tenancyMode inService =>
        some (s.withDirectory (s.directory.updateMediaNode nodeId tenancyMode inService))
    | .assignOrgToNode orgId nodeId =>
        if nodeId ∈ s.directory.nodes.map MediaNode.nodeId then
          some (s.withDirectory (s.directory.assign orgId (some nodeId)))
        else none
    | .unassignOrgFromNode orgId => some (s.withDirectory (s.directory.assign orgId none))
    | .rescan nodes =>
        if h : nodes.isPerm s.directory.nodes then some (s.withDirectory (s.directory.rescan nodes h))
        else none
    | .getNodeForOrg request userId orgId channelId =>
        if s.requests request = none then
          some { s with
            requests := Function.update s.requests request
              (some ⟨userId, orgId, channelId, s.directory, none⟩) }
        else none
    | .getBestSharedNode request =>
        (s.requests request).bind fun req =>
          if req.shared.isNone then
            some { s with
              requests := Function.update s.requests request
                (some { req with shared := some s.directory }) }
          else none
    | .signTicket request =>
        (s.requests request).bind fun req =>
          req.shared.bind fun shared =>
            some { s with
              requests := Function.update s.requests request none
              tickets := s.tickets ++ [sign s.directory req shared] }
    | .connect ticket =>
        s.tickets[ticket]?.bind fun t => if s.expired t then none else some (s.accept t)
    | .close session =>
        if session ∈ s.sessions then some { s with sessions := s.sessions.erase session } else none

/-- The identity node starts with the rows that the database has. -/
def start (d : Directory) : State config where
  directory := { d with activeMediaUrl := Directory.localhost, lastSeen := d.clock }
  requests _ := none
  tickets := []
  sessions := []

end SpecterComs.Discovery
