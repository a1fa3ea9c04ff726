import SpecterComs.Model.MlsStore.Msgcache

/-! # Frames of the event stream

The loop of `sse_session` in `src-tauri/src/background_sync.rs`: each chunk is decoded as it comes,
and a frame ends in a blank line.
-/

namespace SpecterComs.EventFrames

open MlsStore (Bytes fromUtf8Lossy)

/-- `buf.find("\n\n")` and `buf.drain(..pos + 2)`: the frame, and what stays. -/
def drainFrame : List Char → Option (List Char × List Char)
  | [] => none
  | [_] => none
  | a :: b :: rest =>
      if a = '\n' ∧ b = '\n' then some ([a, b], rest)
      else (drainFrame (b :: rest)).map fun (frame, rest) => (a :: frame, rest)

/-- The inner loop: the frames for `handle_sse_frame`, and what stays in `buf`. A round takes
characters out of it. -/
def drainFrames : ℕ → List Char → List (List Char) × List Char
  | 0, buf => ([], buf)
  | rounds + 1, buf =>
      match drainFrame buf with
      | none => ([], buf)
      | some (frame, rest) =>
          let (frames, buf) := drainFrames rounds rest
          (frame :: frames, buf)

/-- The frames of the chunks that come behind what is in `buf`. -/
def sseSession (buf : List Char) : List Bytes → List (List Char)
  | [] => []
  | chunk :: chunks =>
      let buf := buf ++ (fromUtf8Lossy chunk).toList
      let (frames, buf) := drainFrames buf.length buf
      frames ++ sseSession buf chunks

end SpecterComs.EventFrames
