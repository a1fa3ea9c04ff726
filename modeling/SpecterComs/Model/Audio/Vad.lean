import SpecterComs.Library.StepSystem

/-! # Voice activation

`plugins/specter-audio/src/vad.rs`. A window carries its number among the captured ones, which
is not in the samples; what `nnnoiseless` does with a frame is a parameter.
-/

namespace SpecterComs.Vad

structure Window where
  number : ℕ
  pcm : List Int16

/-- 20 ms at 48 kHz mono. -/
def frame : ℕ := 960

def sub : ℕ := 480

/-! ## Numbers -/

/-- `f32::max`: of a number and a NaN the number. -/
def fmax (a b : Float32) : Float32 :=
  if a.isNaN || a < b then b else a

def fmin (a b : Float32) : Float32 :=
  if a.isNaN || b < a then b else a

def infinity : Float32 := 1.0 / 0.0

/-! ## Manual mode -/

/-- In nanoseconds. -/
def sendGateHangover : ℕ := 200000000

/-- Whether a window is sent, and the new `last_above`. -/
def shouldSendAt (lastAbove : Option ℕ) (threshold rms : Float32) (now : ℕ) : Bool × Option ℕ :=
  if threshold ≤ rms then (true, some now)
  else (lastAbove.any fun t => now - t < sendGateHangover, lastAbove)

inductive VadMode
  | manual
  | auto
  deriving DecidableEq, Repr

inductive Sensitivity
  | low
  | normal
  | high
  deriving DecidableEq, Repr

/-! ## Levels -/

def minDb : Float32 := -100.0

def rmsToDb (rms : Float32) : Float32 :=
  if rms ≤ 0.0 then minDb else fmax (20.0 * (rms / 32768.0).log10) minDb

def dbToRms (db : Float32) : Float32 :=
  32768.0 * (10.0 : Float32).pow (db / 20.0)

def frameRms (f : List Int16) : Float32 :=
  if f.isEmpty then 0.0
  else ((f.map fun s => s.toFloat * s.toFloat).foldl (· + ·) 0.0 / Float.ofNat f.length).sqrt.toFloat32

/-! ## The noise floor -/

def floorSubFrames : ℕ := 25

def floorSubs : ℕ := 6

def floorBiasDb : Float32 := 1.5

structure NoiseFloor where
  smoothDb : Float32
  subMin : Float32
  subCount : ℕ
  subs : List Float32
  subsFilled : ℕ
  subsIdx : ℕ
  floorDb : Float32
  initialized : Bool

namespace NoiseFloor

def new : NoiseFloor where
  smoothDb := minDb
  subMin := infinity
  subCount := 0
  subs := List.replicate floorSubs infinity
  subsFilled := 0
  subsIdx := 0
  floorDb := minDb
  initialized := false

/-- The smoothed level, and the floor it is compared with. -/
def smooth (f : NoiseFloor) (levelDb : Float32) : NoiseFloor :=
  if !f.initialized then { f with smoothDb := levelDb, floorDb := levelDb, initialized := true }
  else { f with smoothDb := f.smoothDb + 0.3 * (levelDb - f.smoothDb) }

def count (f : NoiseFloor) : NoiseFloor :=
  let f := { f with subMin := fmin f.subMin f.smoothDb, subCount := f.subCount + 1 }
  if floorSubFrames ≤ f.subCount then
    { f with
      subs := f.subs.set f.subsIdx f.subMin
      subsIdx := (f.subsIdx + 1) % floorSubs
      subsFilled := min (f.subsFilled + 1) floorSubs
      subMin := infinity
      subCount := 0 }
  else f

/-- The floor is the new `floorDb`. -/
def update (f : NoiseFloor) (levelDb : Float32) : NoiseFloor :=
  let f := (f.smooth (fmax levelDb minDb)).count
  let lowest := (f.subs.take f.subsFilled).foldl fmin f.subMin
  let rawMin := if !lowest.isFinite then f.smoothDb else lowest
  let target := fmax (rawMin + floorBiasDb) minDb
  let k : Float32 := if target < f.floorDb then 0.5 else 0.1
  { f with floorDb := f.floorDb + k * (target - f.floorDb) }

end NoiseFloor

def spreadFrames : ℕ := 25

structure LevelSpread where
  hist : List Float32
  idx : ℕ
  filled : ℕ

namespace LevelSpread

def new : LevelSpread where
  hist := List.replicate spreadFrames minDb
  idx := 0
  filled := 0

def push (s : LevelSpread) (levelDb : Float32) : LevelSpread × Float32 :=
  let hist := s.hist.set s.idx levelDb
  let filled := min (s.filled + 1) spreadFrames
  let h := hist.take filled
  ({ hist := hist, idx := (s.idx + 1) % spreadFrames, filled := filled },
    h.foldl fmax (-infinity) - h.foldl fmin infinity)

end LevelSpread

/-! ## The gate -/

structure GateParams where
  vadOpen : Float32
  vadKeep : Float32
  marginOpenDb : Float32
  marginKeepDb : Float32
  absMinDb : Float32
  spreadOpenDb : Float32
  spreadKeepDb : Float32
  confirm : ℕ
  hangover : ℕ

def autoHangoverFrames : ℕ := 16

def autoConfirmFrames : ℕ := 2

def preRollFrames : ℕ := 2

def GateParams.forSensitivity (s : Sensitivity) : GateParams :=
  let (vadOpen, vadKeep, marginOpenDb, absMinDb) : Float32 × Float32 × Float32 × Float32 :=
    match s with
    | .low => (0.85, 0.50, 12.0, -60.0)
    | .normal => (0.70, 0.40, 9.0, -66.0)
    | .high => (0.50, 0.25, 6.0, -72.0)
  { vadOpen := vadOpen
    vadKeep := vadKeep
    marginOpenDb := marginOpenDb
    marginKeepDb := marginOpenDb - 4.0
    absMinDb := absMinDb
    spreadOpenDb := 6.0
    spreadKeepDb := 3.0
    confirm := autoConfirmFrames
    hangover := autoHangoverFrames }

inductive GateStep
  | closed
  | opened
  | open
  | closing
  deriving DecidableEq, Repr

def GateStep.sends : GateStep → Bool
  | opened | .open => true
  | closed | closing => false

structure Gate where
  isOpen : Bool
  streak : ℕ
  hang : ℕ
  deriving DecidableEq, Repr

/-- What a window is judged by. -/
structure Levels where
  levelDb : Float32
  floorDb : Float32
  vad : Float32
  spreadDb : Float32

def Levels.opens (l : Levels) (p : GateParams) : Bool :=
  p.vadOpen ≤ l.vad && l.floorDb + p.marginOpenDb ≤ l.levelDb && p.absMinDb ≤ l.levelDb &&
    p.spreadOpenDb ≤ l.spreadDb

def Levels.keeps (l : Levels) (p : GateParams) : Bool :=
  l.opens p || (p.vadKeep ≤ l.vad && l.floorDb + p.marginKeepDb ≤ l.levelDb &&
    p.absMinDb ≤ l.levelDb && p.spreadKeepDb ≤ l.spreadDb)

namespace Gate

def reset : Gate := ⟨false, 0, 0⟩

def step (g : Gate) (p : GateParams) (l : Levels) : Gate × GateStep :=
  if !g.isOpen then
    if l.opens p then
      if p.confirm ≤ g.streak + 1 then (⟨true, 0, p.hangover⟩, .opened)
      else ({ g with streak := g.streak + 1 }, .closed)
    else ({ g with streak := 0 }, .closed)
  else if l.keeps p then ({ g with hang := p.hangover }, .open)
  else if 1 < g.hang then ({ g with hang := g.hang - 1 }, .open)
  else ({ g with isOpen := false, hang := 0 }, .closing)

end Gate

/-! ## The processor -/

/-- The denoiser: a frame of 10 ms gives the denoised one and its voice probability. -/
structure Denoiser (State : Type*) where
  new : State
  processFrame : State → List Float32 → State × List Float32 × Float32

structure Outcome where
  send : List Window
  rms : Float32
  floorRms : Float32
  vad : Option Float32
  gate : Bool
  speaking : Bool
  mode : VadMode

structure VoiceProcessor (State : Type*) where
  floor : NoiseFloor
  spread : LevelSpread
  gate : Gate
  lastAbove : Option ℕ
  denoise : Option State
  preRoll : List Window
  lastMode : VadMode

/-- A captured window, with the settings of that moment and the clock in nanoseconds. -/
structure Call where
  pcm : List Int16
  mode : VadMode
  threshold : Float32
  suppression : Bool
  sensitivity : Sensitivity
  now : ℕ

namespace VoiceProcessor

variable {State : Type*}

def new : VoiceProcessor State where
  floor := .new
  spread := .new
  gate := .reset
  lastAbove := none
  denoise := none
  preRoll := []
  lastMode := .manual

variable (p : VoiceProcessor State)

def switchMode (mode : VadMode) : VoiceProcessor State :=
  if mode ≠ p.lastMode then
    { p with gate := .reset, preRoll := [], lastAbove := none, lastMode := mode }
  else p

/-- What the levels of a window come to: its RMS, its level and its spread. -/
def measure (pcm : List Int16) : VoiceProcessor State × Float32 × Float32 × Float32 :=
  let rms := frameRms pcm
  let levelDb := rmsToDb rms
  let (spread, spreadDb) := p.spread.push levelDb
  ({ p with floor := p.floor.update levelDb, spread := spread }, rms, levelDb, spreadDb)

/-- `clamp(-32768.0, 32767.0) as i16`; a NaN gives 0. -/
def sample (x : Float32) : Int16 :=
  if x < -32768.0 then -32768 else if 32767.0 < x then 32767 else x.toInt16

/-- The halves of a window one after the other: the voice probability, and the denoised
samples. -/
def denoiseHalves (d : Denoiser State) (st : State) (pcm : List Int16) :
    State × Float32 × List Int16 :=
  ((List.range (pcm.length / sub)).map fun i => (pcm.drop (i * sub)).take sub).foldl
    (fun (st, vad, processed) half =>
      let (st, outF, prob) := d.processFrame st (half.map Int16.toFloat32)
      (st, fmax vad prob, processed ++ outF.map sample))
    (st, 0.0, [])

/-- The automatic mode up to the gate: the state of the denoiser, the levels and the denoised
samples. -/
def hear (d : Denoiser State) (pcm : List Int16) (levelDb spreadDb : Float32) :
    State × Levels × List Int16 :=
  let (dn, vad, processed) := denoiseHalves d (p.denoise.getD d.new) pcm
  (dn, { levelDb := levelDb, floorDb := p.floor.floorDb, vad := vad, spreadDb := spreadDb },
    processed)

/-- Where the step of the gate puts the window: what is sent, and the new pre-roll. -/
def dispatch (preRoll : List Window) (tx : Window) : GateStep → List Window × List Window
  | .opened => (preRoll ++ [tx], [])
  | .open => ([tx], preRoll)
  | .closed | .closing =>
      let preRoll := preRoll ++ [tx]
      ([], preRoll.drop (preRoll.length - preRollFrames))

def process (d : Denoiser State) (frame : Window) (c : Call) : VoiceProcessor State × Outcome :=
  let (p, rms, levelDb, spreadDb) := (p.switchMode c.mode).measure frame.pcm
  let floorRms := dbToRms p.floor.floorDb
  match c.mode with
  | .manual =>
      let (send, lastAbove) := shouldSendAt p.lastAbove c.threshold rms c.now
      ({ p with lastAbove := lastAbove },
        { send := if send then [frame] else [], rms := rms, floorRms := floorRms, vad := none
          gate := send, speaking := c.threshold ≤ rms, mode := .manual })
  | .auto =>
      let (dn, levels, processed) := p.hear d frame.pcm levelDb spreadDb
      let tx : Window := if c.suppression then { frame with pcm := processed } else frame
      let (gate, step) := p.gate.step (.forSensitivity c.sensitivity) levels
      let (send, preRoll) := dispatch p.preRoll tx step
      ({ p with denoise := some dn, gate := gate, preRoll := preRoll },
        { send := send, rms := rms, floorRms := floorRms, vad := some levels.vad
          gate := step.sends, speaking := step.sends, mode := .auto })

/-- The levels `process` judges a window by. -/
def levels (d : Denoiser State) (c : Call) : Levels :=
  let (p, _, levelDb, spreadDb) := (p.switchMode c.mode).measure c.pcm
  (p.hear d c.pcm levelDb spreadDb).2.1

end VoiceProcessor

/-! ## Captures -/

/-- What a window came to: how it was judged in the automatic mode, and the windows that were
sent. -/
structure Entry where
  call : Call
  levels : Levels
  step : Option GateStep
  sent : List ℕ

structure Capture (State : Type*) where
  processor : VoiceProcessor State
  log : List Entry

def Capture.start {State : Type*} : Capture State :=
  ⟨.new, []⟩

def Capture.next {State : Type*} (d : Denoiser State) (s : Capture State) (c : Call) :
    Capture State :=
  let (processor, outcome) := s.processor.process d ⟨s.log.length, c.pcm⟩ c
  let levels := s.processor.levels d c
  let params := GateParams.forSensitivity c.sensitivity
  let step :=
    match c.mode with
    | .manual => none
    | .auto => some ((s.processor.switchMode c.mode).gate.step params levels).2
  { processor := processor
    log := s.log ++ [⟨c, levels, step, outcome.send.map Window.number⟩] }

def system {State : Type*} (d : Denoiser State) : StepSystem (Capture State) Call where
  step s c := some (s.next d c)

end SpecterComs.Vad
