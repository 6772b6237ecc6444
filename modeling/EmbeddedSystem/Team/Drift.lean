import EmbeddedSystem.Team.ServerPiApp

/-!
# Lost messages

Both gates publish with QoS 0, so a request may never arrive.  `on_message`
moves the count by a `Steady` map: two servers that get the same messages
never drift apart, and a server that misses `k` of them ends with a count that
is at most `k` off.  The answers in between may differ at both bounds.
-/

set_option autoImplicit false

namespace EmbeddedSystem.Team.ServerPiApp

open EmbeddedSystem.Verified
open EmbeddedSystem.Verified.CString

/-- What `on_message` does to the count, whatever the count is. -/
theorem onMessage_currentCount (max : Int) (s : Server) (m : Message) :
    (onMessage max s m).1.currentCount = countAfter max s.currentCount m := by
  rw [onMessage_calls]

theorem steady_countAfter (max : Int) (m : Message) :
    BoundedCounter.Steady fun n => countAfter max n m := by
  unfold countAfter
  cases request m with
  | none => exact BoundedCounter.steady_id
  | some r => exact BoundedCounter.steady_next max r

/-- The count at the end of a session. -/
theorem serve_currentCount (max : Int) (s : Server) (msgs : List Message) :
    (serve max s msgs).1.currentCount =
      BoundedCounter.follow (fun m n => countAfter max n m)
        s.currentCount msgs := by
  induction msgs generalizing s with
  | nil => rfl
  | cons m msgs ih =>
      show (serve max (onMessage max s m).1 msgs).1.currentCount = _
      rw [ih, onMessage_currentCount]
      rfl

/-- A session and the same session without `k` of its messages, from the same
count: the counts at the end differ by at most `k`.  One session from two
counts `a ≤ b`: after every message the first count is at most the second, and
the message has not increased their difference. -/
theorem drift_bounded (max : Int) (fd : Int) :
    (∀ (n : Int) (msgs kept : List Message) (k : Nat), kept.Sublist msgs →
      msgs.length = kept.length + k →
      (serve max ⟨n, fd⟩ msgs).1.currentCount -
          (serve max ⟨n, fd⟩ kept).1.currentCount ≤ k ∧
        (serve max ⟨n, fd⟩ kept).1.currentCount -
          (serve max ⟨n, fd⟩ msgs).1.currentCount ≤ k) ∧
      ∀ (a b : Int) (msgs : List Message) (m : Message), a ≤ b →
        (serve max ⟨a, fd⟩ msgs).1.currentCount ≤
            (serve max ⟨b, fd⟩ msgs).1.currentCount ∧
          (serve max ⟨b, fd⟩ (msgs ++ [m])).1.currentCount -
              (serve max ⟨a, fd⟩ (msgs ++ [m])).1.currentCount ≤
            (serve max ⟨b, fd⟩ msgs).1.currentCount -
              (serve max ⟨a, fd⟩ msgs).1.currentCount := by
  have hsteady := steady_countAfter max
  simp only [serve_currentCount]
  refine ⟨fun n msgs kept k hsub hk => ?_, fun a b msgs m hab => ?_⟩
  · have hsame : BoundedCounter.Within 0 n n := by
      unfold BoundedCounter.Within
      omega
    have hdrift := hsame.follow_sublist hsteady hsub hk
    rw [Int.zero_add] at hdrift
    exact hdrift
  · have hle := (BoundedCounter.follow_mono_close hsteady hab msgs).1
    refine ⟨hle, ?_⟩
    rw [BoundedCounter.follow_append, BoundedCounter.follow_append]
    exact (BoundedCounter.follow_mono_close hsteady hle [m]).2

/-- A message whose payload is there. -/
def Message.ofBytes (topic : CStr) (b : Bytes) : Message :=
  ⟨topic, some b, b.length, fun c hc => by rw [Option.mem_some.mp hc]⟩

/-- A car wants to enter. -/
def enterRequest : Message := .ofBytes topicEntryRequest (ascii "ENTER")

/-- A car wants to leave. -/
def exitRequest : Message := .ofBytes topicExitRequest (ascii "EXIT")

/-- One place: the first car is let in, the second one is not, and the first
one leaves.  Had the first request been lost, the second car would have been
let in. -/
theorem drift_bounded_lostEntry :
    ((serve 1 ⟨0, 3⟩ [enterRequest, enterRequest, exitRequest]).1.currentCount -
        (serve 1 ⟨0, 3⟩ [enterRequest, exitRequest]).1.currentCount ≤ 1 ∧
      (serve 1 ⟨0, 3⟩ [enterRequest, exitRequest]).1.currentCount -
        (serve 1 ⟨0, 3⟩ [enterRequest, enterRequest, exitRequest]
          ).1.currentCount ≤ 1) ∧
    (serve 1 ⟨0, 3⟩ [enterRequest]).1.currentCount ≤
      (serve 1 ⟨1, 3⟩ [enterRequest]).1.currentCount := by
  obtain ⟨hlost, hpair⟩ := drift_bounded 1 3
  exact ⟨hlost 0 [enterRequest, enterRequest, exitRequest]
      [enterRequest, exitRequest] 1 (.cons _ (.refl _)) rfl,
    (hpair 0 1 [enterRequest] exitRequest (by decide)).1⟩

end EmbeddedSystem.Team.ServerPiApp
