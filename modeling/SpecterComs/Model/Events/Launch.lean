import SpecterComs.Model.Events.Plan

/-! # Launching an event

`launchEvent` with its recursions over the groups of an event. They recurse along whatever parents
are stored, so each takes a bound on its depth and gives nothing where the bound is reached. What
a launch publishes after it has committed is left out.
-/

namespace SpecterComs.Events

open Handler

/-- `SELECT * FROM event_groups WHERE event_id = $1`. -/
def Db.groupRows (db : Db) (eventId : ℕ) : List Group :=
  db.groups.filter fun g => g.eventId = eventId

/-- What is visited is what is sorted so far. -/
def visited (sorted : List Group) (groupId : ℕ) : Bool :=
  sorted.any fun g => g.id = groupId

/-- The parents of a group, and then the group. -/
def visit (groupRows : List Group) : ℕ → Group → List Group → Option (List Group)
  | 0, _, _ => none
  | depth + 1, g, sorted =>
      if visited sorted g.id then some sorted
      else do
        let parent := g.parentGroupId.bind fun id => groupRows.find? fun p => p.id = id
        let sorted ←
          match parent with
          | some parent =>
              if visited sorted parent.id then some sorted
              else visit groupRows depth parent sorted
          | none => some sorted
        some (sorted ++ [g])

/-- The groups, parents before children. -/
def sortGroups (depth : ℕ) (groupRows : List Group) : Option (List Group) :=
  groupRows.foldlM (fun sorted g => visit groupRows depth g sorted) []

/-- The depth of a group below the command channel. -/
def computeTier (groupRows : List Group) : ℕ → ℕ → Option ℕ
  | 0, _ => none
  | depth + 1, groupId =>
      match (groupRows.find? fun g => g.id = groupId).bind Group.parentGroupId with
      | none => some 1
      | some parentId => (computeTier groupRows depth parentId).map (· + 1)

/-! ## The channels of an operation -/

structure Channel where
  id : ℕ
  orgId : ℕ
  eventId : ℕ
  name : String
  isFrequency : Bool
  parentChannelId : Option ℕ
  deriving DecidableEq, Repr

/-- The tables with the columns that a launch is about. -/
structure LaunchDb extends Db where
  /-- `events.name`. -/
  eventName : ℕ → String
  /-- `event_groups.channel_id`. -/
  groupChannel : ℕ → Option ℕ
  channels : List Channel

namespace LaunchDb

variable (db : LaunchDb)

/-- `SELECT id, name FROM event_frequencies WHERE event_id = $1 ORDER BY sort_order`. -/
def frequencyRows (eventId : ℕ) : List Frequency :=
  (db.frequencies.filter fun f => f.eventId = eventId).insertionSort fun a b =>
    a.sortOrder ≤ b.sortOrder

def insertChannel (c : Channel) : LaunchDb :=
  { db with channels := db.channels ++ [c] }

/-- `UPDATE event_groups SET channel_id = $1 WHERE id = $2`. -/
def setGroupChannel (groupId channelId : ℕ) : LaunchDb :=
  { db with groupChannel := Function.update db.groupChannel groupId (some channelId) }

/-- `UPDATE event_frequencies SET channel_id = $1 WHERE id = $2`. -/
def setFrequencyChannel (frequencyId channelId : ℕ) : LaunchDb :=
  { db with
    frequencies := db.frequencies.map fun f =>
      if f.id = frequencyId then { f with channelId := some channelId } else f }

/-- `UPDATE events SET launched = true, command_channel_id = $1 WHERE id = $2`. -/
def setLaunched (eventId commandChannelId : ℕ) : LaunchDb :=
  { db with
    events := db.events.map fun e =>
      if e.id = eventId then
        { e with launched := true, commandChannelId := some commandChannelId }
      else e }

end LaunchDb

structure LaunchResponse extends Response where
  commandChannelId : Option ℕ
  deriving DecidableEq, Repr

def notLaunched (status : ℕ) (message : String) : LaunchResponse :=
  { reply status message with commandChannelId := none }

/-- A request to launch. The database generates the ids of the channels it inserts. -/
structure LaunchRequest where
  orgId : ℕ
  userId : ℕ
  newId : ℕ → ℕ
  /-- How deep the handler may recurse. -/
  depth : ℕ

namespace LaunchRequest

variable (r : LaunchRequest) (eventId commandChannelId : ℕ)

/-- A voice channel per group, the `n`-th channel of the launch first. -/
def launchGroups : ℕ → List (ℕ × ℕ) → List Group → Handler LaunchDb LaunchResponse ℕ
  | n, _, [] => pure n
  | n, groupToChannel, g :: sorted => do
      let parentChannelId :=
        (g.parentGroupId.bind fun id => groupToChannel.lookup id).getD commandChannelId
      let channelId := r.newId n
      update fun db => db.insertChannel
        { id := channelId
          orgId := r.orgId
          eventId := eventId
          name := g.name
          isFrequency := false
          parentChannelId := some parentChannelId }
      update fun db => db.setGroupChannel g.id channelId
      launchGroups (n + 1) ((g.id, channelId) :: groupToChannel) sorted

/-- A hidden channel per frequency. -/
def launchFrequencies : ℕ → List Frequency → Handler LaunchDb LaunchResponse Unit
  | _, [] => pure ()
  | n, f :: freqRows => do
      let channelId := r.newId n
      update fun db => db.insertChannel
        { id := channelId
          orgId := r.orgId
          eventId := eventId
          name := f.name
          isFrequency := true
          parentChannelId := some commandChannelId }
      update fun db => db.setFrequencyChannel f.id channelId
      launchFrequencies (n + 1) freqRows

end LaunchRequest

def launchEvent (eventId : ℕ) (r : LaunchRequest) :
    Handler LaunchDb LaunchResponse LaunchResponse := do
  let manages ← select fun db => db.canManageThisEvent r.userId r.orgId eventId
  require manages (notLaunched 403 "Forbidden")
  let ev ← select fun db => (db.event eventId r.orgId).map fun ev => (ev, db.eventName ev.id)
  let ev ← found ev (notLaunched 404 "Event not found")
  require (!ev.1.launched) (notLaunched 409 "Event already launched")
  let groupRows ← select fun db => db.groupRows eventId
  let sorted ← found (sortGroups r.depth groupRows) (notLaunched 500 "Server error")
  let commandChannelId := r.newId 0
  update fun db => db.insertChannel
    { id := commandChannelId
      orgId := r.orgId
      eventId := eventId
      name := ev.2 ++ " — COMMAND"
      isFrequency := false
      parentChannelId := none }
  let n ← r.launchGroups eventId commandChannelId 1 [] sorted
  let freqRows ← select fun db => db.frequencyRows eventId
  r.launchFrequencies eventId commandChannelId n freqRows
  update fun db => db.setLaunched eventId commandChannelId
  pure { reply 200 "Operation launched" with commandChannelId := some commandChannelId }

end SpecterComs.Events
