import SpecterComs.Model.Chat.Dates

/-! # The usage cycle of an organization

`addMonths` and the lazy rollover of `getBillingStatus` (`controllers/billingController.ts`), and
what `utils/billingConsumer.ts` adds to the same row of `org_billing`. The statements of a read are
steps of their own: other requests and the consumer come in between. Postgres keeps microseconds,
and node-pg hands out milliseconds.
-/

namespace SpecterComs.UsageCycle

open Chat (msPerDay epochDay dayOfYear isLeap monthLengths momentOf)

/-! ## Months -/

/-- `MakeDay` of ECMAScript, with the month from 0: months and days beyond the last run over. -/
def makeDay (year : ℤ) (month day : ℕ) : ℤ :=
  let y := year + (month / 12 : ℕ)
  dayOfYear y + ((monthLengths (isLeap y)).take (month % 12)).sum + (day - 1) - epochDay

/-- The time zone of the server, in milliseconds. -/
structure Zone where
  localTime : ℤ → ℤ
  utc : ℤ → ℤ
  localTime_near : ∀ t, t - msPerDay ≤ localTime t
  utc_near : ∀ t, t - msPerDay ≤ utc t

def Zone.greenwich : Zone where
  localTime := id
  utc := id
  localTime_near t := Int.sub_le_self t (by decide)
  utc_near t := Int.sub_le_self t (by decide)

/-- `copy.setMonth(copy.getMonth() + n)`. -/
def addMonths (zone : Zone) (d : ℤ) (n : ℕ) : ℤ :=
  let t := zone.localTime d
  let m := momentOf t
  zone.utc (makeDay m.year (m.month - 1 + n) m.day * msPerDay + t % msPerDay)

/-- `while (now >= addMonths(cycleStart, 1)) cycleStart = addMonths(cycleStart, 1)`. -/
def catchUp (zone : Zone) (now : ℤ) : (fuel : ℕ) → (cycleStart : ℤ) → ℤ
  | 0, cycleStart => cycleStart
  | fuel + 1, cycleStart =>
      if addMonths zone cycleStart 1 ≤ now then catchUp zone now fuel (addMonths zone cycleStart 1)
      else cycleStart

/-! ## The row of `org_billing` -/

structure Row where
  cycleBytesOut : ℕ
  /-- In microseconds. -/
  cycleStartAt : ℤ
  deriving DecidableEq, Repr

/-- What node-pg makes of a timestamp. -/
def toMs (us : ℤ) : ℤ :=
  us / 1000

/-- How far a read has come. -/
inductive Read
  | selected (row : Row)
  /-- The rollover is due: `now` was read from the clock, and the update is on its way. -/
  | rolling (row : Row) (now cycleStart : ℤ)
  deriving DecidableEq, Repr

structure Db where
  /-- In microseconds. -/
  clock : ℤ
  row : Option Row
  reads : ℕ → Option Read

/-- The time zone, and the default of `cycle_start_at` at some time: the schema is not part of the
sources. -/
structure Env where
  zone : Zone
  createdAt : ℤ → ℤ
  createdAt_le : ∀ t, createdAt t ≤ t

/-- `cycle` of the response. -/
structure Report where
  startAt : ℤ
  bytesOut : ℕ
  deriving DecidableEq, Repr

inductive Input
  | wait (us : ℕ)
  /-- The consumer handles the end of a session. -/
  | recordUsage (bytesOut : ℕ)
  /-- `INSERT INTO org_billing (org_id) VALUES ($1) ON CONFLICT DO NOTHING`. -/
  | ensureRow
  | select (read : ℕ)
  /-- `const now = new Date()`, and what is computed from it. -/
  | now (read : ℕ)
  /-- `UPDATE org_billing SET cycle_bytes_out = 0, … AND cycle_start_at = $3`. -/
  | update (read : ℕ)
  deriving DecidableEq, Repr

variable (env : Env) (db : Db)

def newRow : Row where
  cycleBytesOut := 0
  cycleStartAt := env.createdAt db.clock

def recordUsage (bytesOut : ℕ) : Row :=
  let row := db.row.getD (newRow env db)
  { row with cycleBytesOut := row.cycleBytesOut + bytesOut }

/-- `now >= addMonths(cycleStart, 1)`. -/
def due (row : Row) (now : ℤ) : Bool :=
  addMonths env.zone (toMs row.cycleStartAt) 1 ≤ now

/-- The start of the cycle that `now` is in. -/
def cycleStart (row : Row) (now : ℤ) : ℤ :=
  catchUp env.zone now (now - toMs row.cycleStartAt).toNat (toMs row.cycleStartAt)

/-- `cycle_start_at = $3`, with the milliseconds that were read. -/
def unchanged (row : Row) : Bool :=
  db.row.any fun stored => stored.cycleStartAt = 1000 * toMs row.cycleStartAt

def closeRead (read : ℕ) : Db :=
  { db with reads := Function.update db.reads read none }

def step : Input → Option Db
  | .wait us => some { db with clock := db.clock + us }
  | .recordUsage bytesOut => some { db with row := some (recordUsage env db bytesOut) }
  | .ensureRow => some { db with row := some (db.row.getD (newRow env db)) }
  | .select read =>
      match db.row, db.reads read with
      | some row, none =>
          some { db with reads := Function.update db.reads read (some (.selected row)) }
      | _, _ => none
  | .now read =>
      match db.reads read with
      | some (.selected row) =>
          let now := toMs db.clock
          if due env row now then
            some { db with
              reads := Function.update db.reads read
                (some (.rolling row now (cycleStart env row now))) }
          else some (closeRead db read)
      | _ => none
  | .update read =>
      match db.reads read with
      | some (.rolling row _ cycleStart) =>
          let db' := closeRead db read
          if unchanged db row then
            some { db' with row := some { cycleBytesOut := 0, cycleStartAt := 1000 * cycleStart } }
          else some db'
      | _ => none

def report (row : Row) : Report where
  startAt := toMs row.cycleStartAt
  bytesOut := row.cycleBytesOut

/-- The response that the step sends. -/
def response : Input → Option Report
  | .now read =>
      match db.reads read with
      | some (.selected row) => if due env row (toMs db.clock) then none else some (report row)
      | _ => none
  | .update read =>
      match db.reads read with
      | some (.rolling row _ cycleStart) =>
          if unchanged db row then some { startAt := cycleStart, bytesOut := 0 }
          else some (report row)
      | _ => none
  | .wait _ | .recordUsage _ | .ensureRow | .select _ => none

end SpecterComs.UsageCycle
