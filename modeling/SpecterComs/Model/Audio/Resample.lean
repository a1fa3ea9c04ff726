import Mathlib.Data.Rat.Floor

/-! # The linear resampler

`LinearResampler` of `plugins/specter-audio/src/resample.rs`, with rational numbers for `f64`.
An index outside of a slice has no result here, and neither has a loop that takes more rounds
than the samples in front of the read position need.
-/

namespace SpecterComs.Resample

structure LinearResampler where
  ratio : ℚ
  /-- Relative to the start of the next slice. -/
  pos : ℚ
  /-- The last sample of the previous slice. -/
  prev : Int16

namespace LinearResampler

def new (inputRate outputRate : ℕ) : LinearResampler where
  ratio := outputRate / inputRate
  pos := 0
  prev := 0

end LinearResampler

/-- `f64::round`: halves go away from zero. -/
def round (x : ℚ) : ℤ :=
  if 0 ≤ x then ⌊x + 1 / 2⌋ else ⌈x - 1 / 2⌉

def clamp (z : ℤ) : ℤ :=
  max (-32768) (min z 32767)

/-- The sample at `t` between two neighbours. -/
def interpolate (s0 s1 : Int16) (t : ℚ) : Int16 :=
  let interpolated : ℚ := s0.toInt + t * (s1.toInt - s0.toInt)
  .ofInt (clamp (round interpolated))

/-- `input[idx as usize]`. -/
def index (input : List Int16) (idx : ℤ) : Option Int16 :=
  if idx < 0 then none else input[idx.toNat]?

/-- An index below zero is the slot of `prev`. -/
def readSample (prev : Int16) (input : List Int16) (idx : ℤ) : Option Int16 :=
  if idx < 0 then some prev else index input idx

/-- The loop, with the read position and what it pushed. -/
def loop (prev : Int16) (input : List Int16) (step : ℚ) :
    (fuel : ℕ) → (pos : ℚ) → (out : List Int16) → Option (ℚ × List Int16)
  | 0, _, _ => none
  | fuel + 1, pos, out => do
      let idx0 := ⌊pos⌋
      let idx1 := idx0 + 1
      if (input.length : ℤ) ≤ idx1 then return (pos, out)
      else
        let t := pos - idx0
        let s0 ← readSample prev input idx0
        let s1 ← index input idx1
        loop prev input step fuel (pos + step) (out ++ [interpolate s0 s1 t])

def process (r : LinearResampler) (input out : List Int16) :
    Option (LinearResampler × List Int16) := do
  match input.getLast? with
  | none => return (r, out)
  | some last =>
      let step := 1 / r.ratio
      let fuel := ⌈(input.length - r.pos) / step⌉₊ + 1
      let (pos, out) ← loop r.prev input step fuel r.pos out
      return ({ r with pos := pos - input.length, prev := last }, out)

/-- One call after the other. -/
def processAll (r : LinearResampler) (chunks : List (List Int16)) (out : List Int16) :
    Option (LinearResampler × List Int16) :=
  match chunks with
  | [] => some (r, out)
  | input :: chunks => do
      let (r, out) ← process r input out
      processAll r chunks out

end SpecterComs.Resample
