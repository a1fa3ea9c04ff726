import SpecterComs.Model.IdentityNode.StreamCleanup

/-! # Which event streams leave something behind

The timer and the subscriptions go with the `close` event, if the listener is attached by then. A
client that disconnects while the handler awaits leaves all of them.
-/

namespace SpecterComs.StreamCleanup

open DeliveryService (UserId)
open EventStream (Subject)

variable {s s' : Stream} {i : Input} {userId : Option UserId} {is : List Input}

namespace Stream

/-- Nothing is left of the stream. -/
structure Clean (s : Stream) : Prop where
  keepalive : s.keepalive = false
  subs : ∀ sub ∈ s.subs, sub.active = false

/-- The client stays until the listener is attached, and no `subscribe` of the user's own subject
or an organization's throws. -/
def careful (s : Stream) : Input → Bool
  | .disconnect => s.listening || !s.keepalive
  | .nats connected throws =>
      match s.handler with
      | .nats orgIds => !connected || !fails (.user s.userId :: orgIds.map .org) throws
      | _ => true
  | _ => true

/-- What holds of a stream at any time. -/
structure Inv (s : Stream) : Prop where
  /-- The listener is attached by a handler that returns. -/
  listening : s.listening = true → s.handler = .returned
  /-- The timer runs until it is cleared. -/
  running : s.keepalive = false → s.handler = .returned ∧ ∀ sub ∈ s.subs, sub.active = false
  /-- A handler that returned from a stream attached the listener. -/
  attached : s.handler = .returned → s.keepalive = true → s.listening = true

/-- The stream has not left anything behind so far. -/
def OnTrack (s : Stream) : Prop :=
  (s.closed = true → s.keepalive = false) ∧ s.handler ≠ .threw

end Stream

theorem inv_eventStream (userId : Option UserId) : (eventStream userId).Inv := by
  cases userId with
  | none => exact ⟨nofun, fun _ => ⟨rfl, by simp [eventStream]⟩, nofun⟩
  | some id => exact ⟨nofun, nofun, nofun⟩

namespace Stream.Inv

/-- While the handler awaits, the timer runs and nobody listens. -/
theorem awaiting (h : s.Inv) (hhandler : s.handler ≠ .returned) :
    s.listening = false ∧ s.keepalive = true := by
  constructor
  · cases hlistening : s.listening with
    | true => exact absurd (h.listening hlistening) hhandler
    | false => rfl
  · cases hkeepalive : s.keepalive with
    | true => rfl
    | false => exact absurd (h.running hkeepalive).1 hhandler

/-- A handler that goes on to another await, or throws. -/
theorem goOn (h : s.Inv) (hhandler : s.handler ≠ .returned) (handler : Handler)
    (hnext : handler ≠ .returned) (subs : List Subscription) :
    ({ s with handler := handler, subs := subs } : Stream).Inv where
  listening hlistening := by
    rw [(h.awaiting hhandler).1] at hlistening
    cases hlistening
  running hkeepalive := by
    rw [(h.awaiting hhandler).2] at hkeepalive
    cases hkeepalive
  attached hreturned := absurd hreturned hnext

/-- A handler that attaches the listener. -/
theorem finish (h : s.Inv) (hhandler : s.handler ≠ .returned) (subs : List Subscription)
    (orgIds : List String) : (({ s with subs := subs } : Stream).finish orgIds).Inv where
  listening _ := rfl
  running hkeepalive := by
    have hruns : s.keepalive = false := hkeepalive
    rw [(h.awaiting hhandler).2] at hruns
    cases hruns
  attached _ _ := rfl

end Stream.Inv

/-- A step keeps the invariant, and keeps the stream on track exactly if it is careful. -/
theorem step_onTrack (h : s.Inv) (hstep : streams.step s i = some s') :
    s'.Inv ∧ (s'.OnTrack ↔ s.OnTrack ∧ s.careful i = true) := by
  change s.step i = some s' at hstep
  cases i with
  | members orgIds =>
      unfold Stream.step at hstep
      rw [Option.ite_none_right_eq_some] at hstep
      obtain ⟨hhandler, hsome⟩ := hstep
      obtain rfl := Option.some.inj hsome
      refine ⟨h.goOn (by simp [hhandler]) (.nats _) (fun h => by cases h) s.subs, ?_⟩
      simp [Stream.OnTrack, Stream.careful, hhandler]
  | nats connected throws =>
      unfold Stream.step at hstep
      cases hhandler : s.handler with
      | nats orgIds =>
          have hawaits : s.handler ≠ .returned := by simp [hhandler]
          simp only [hhandler] at hstep
          cases connected with
          | false =>
              obtain rfl := Option.some.inj hstep
              refine ⟨h.finish hawaits s.subs orgIds, ?_⟩
              simp [Stream.OnTrack, Stream.careful, Stream.finish, hhandler]
          | true =>
              simp only [if_true] at hstep
              split at hstep
              · rename_i hthrows
                obtain rfl := Option.some.inj hstep
                refine ⟨h.goOn hawaits .threw (fun h => by cases h) _, ?_⟩
                simp [Stream.OnTrack, Stream.careful, hhandler, hthrows]
              · rename_i hthrows
                split at hstep
                · obtain rfl := Option.some.inj hstep
                  refine ⟨h.finish hawaits _ orgIds, ?_⟩
                  simp [Stream.OnTrack, Stream.careful, Stream.finish, Stream.subscribe, hhandler,
                    hthrows]
                · obtain rfl := Option.some.inj hstep
                  refine ⟨h.goOn hawaits (.channels orgIds) (fun h => by cases h) _, ?_⟩
                  simp [Stream.OnTrack, Stream.careful, Stream.subscribe, hhandler, hthrows]
      | _ =>
          simp only [hhandler] at hstep
          cases hstep
  | channels channelIds throws =>
      unfold Stream.step at hstep
      cases hhandler : s.handler with
      | channels orgIds =>
          simp only [hhandler] at hstep
          obtain rfl := Option.some.inj hstep
          refine ⟨h.finish (by simp [hhandler]) _ orgIds, ?_⟩
          simp [Stream.OnTrack, Stream.careful, Stream.finish, Stream.subscribe, hhandler]
      | _ =>
          simp only [hhandler] at hstep
          cases hstep
  | disconnect =>
      unfold Stream.step at hstep
      rw [Option.ite_none_left_eq_some] at hstep
      obtain ⟨hopen, hsome⟩ := hstep
      obtain rfl := Option.some.inj hsome
      cases hlistening : s.listening with
      | true =>
          have hreturned := h.listening hlistening
          refine ⟨⟨fun _ => hreturned, fun _ => ⟨hreturned, ?_⟩, fun _ h => by cases h⟩, ?_⟩
          · simp [hlistening, Stream.cleanup]
          · simp [Stream.OnTrack, Stream.careful, Stream.cleanup, hlistening, hopen]
      | false =>
          simp only [Bool.false_eq_true, if_false]
          refine ⟨⟨h.listening, h.running, h.attached⟩, ?_⟩
          simp [Stream.OnTrack, Stream.careful, hlistening, hopen, and_comm]
  | tick =>
      unfold Stream.step at hstep
      rw [Option.ite_none_right_eq_some] at hstep
      obtain ⟨-, hsome⟩ := hstep
      obtain rfl := Option.some.inj hsome
      refine ⟨⟨h.listening, h.running, h.attached⟩, ?_⟩
      simp [Stream.OnTrack, Stream.careful]
  | message subject =>
      obtain rfl := Option.some.inj hstep
      refine ⟨⟨h.listening, h.running, h.attached⟩, ?_⟩
      simp [Stream.OnTrack, Stream.careful]

theorem inv_run (h : streams.Run (eventStream userId) is s) : s.Inv :=
  h.invariant (fun _ _ _ hs hstep => (step_onTrack hs hstep).1) (inv_eventStream userId)

/-- A stream whose client is gone has nothing left if it is on track. -/
theorem clean_iff_onTrack (h : s.Inv) (hclosed : s.closed = true) :
    s.Clean ↔ s.OnTrack := by
  constructor
  · rintro ⟨hkeepalive, -⟩
    refine ⟨fun _ => hkeepalive, ?_⟩
    rw [(h.running hkeepalive).1]
    nofun
  · rintro ⟨hcleared, -⟩
    exact ⟨hcleared hclosed, (h.running (hcleared hclosed)).2⟩

/-- Once the client is gone, nothing is left of the stream exactly if every step was careful: the
client left with the listener attached, and no `subscribe` threw. -/
theorem stream_clean_iff (hrun : streams.Run (eventStream userId) is s)
    (hclosed : s.closed = true) :
    s.Clean ↔ ∀ t i t', streams.Passes (eventStream userId) is t i t' → t.careful i = true := by
  rw [clean_iff_onTrack (inv_run hrun) hclosed,
    hrun.keeps_iff (fun _ _ _ hs hstep => step_onTrack hs hstep) (inv_eventStream userId)]
  refine and_iff_right ⟨nofun, ?_⟩
  cases userId <;> nofun

/-- A member of one organization whose streams hear a message before the client leaves. -/
def wholeVisit : List Input :=
  [.members (some ["corp"]), .tick, .nats true none, .channels (some ["bridge"]) none,
    .message (.org "corp"), .disconnect]

theorem stream_clean_iff_visit :
    ∃ s, streams.Run (eventStream (some "ada")) wholeVisit s ∧ s.Clean := by
  let s := ((streams.restrict Stream.careful).exec (eventStream (some "ada")) wholeVisit).get
    (by decide +kernel)
  have hrun : (streams.restrict Stream.careful).Run (eventStream (some "ada")) wholeVisit s :=
    StepSystem.exec_eq_some_iff.mp (Option.some_get _).symm
  have hguarded := hrun.guarded
  exact ⟨s, hguarded.run, (stream_clean_iff hguarded.run (by decide +kernel)).mpr
    fun _ _ _ hpasses => hguarded.passes hpasses⟩

/-- A client that leaves during the membership query leaves the timer and the subscriptions. -/
theorem early_disconnect_leaks :
    ¬ ∀ (userId : Option UserId) (is : List Input) (s : Stream),
      streams.Run (eventStream userId) is s → s.closed = true →
        s.handler = .returned ∨ s.handler = .threw → s.Clean := by
  intro hclaim
  let s := (streams.exec (eventStream (some "ada"))
    [.disconnect, .members (some []), .nats true none]).get (by decide +kernel)
  have hclean := hclaim _ _ s (StepSystem.exec_eq_some_iff.mp (Option.some_get _).symm)
    (by decide +kernel) (by decide +kernel)
  exact absurd hclean.keepalive (by decide +kernel)

end SpecterComs.StreamCleanup
