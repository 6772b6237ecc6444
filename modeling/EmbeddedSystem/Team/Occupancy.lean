import EmbeddedSystem.Team.ServerPiApp

/-!
# The occupancy protocol of the server

For every session, that is every list of messages handed to `on_message` one
after another, the count stays within 0 and `MAX_COUNT` and is the number of
entries allowed minus the number of exits allowed (`serve_count`), and every
message is answered and followed by a status as `Handled` says.
-/

set_option autoImplicit false

namespace EmbeddedSystem.Team.ServerPiApp

open EmbeddedSystem.Verified
open EmbeddedSystem.Verified.CString

/-! ## Publications -/

/-- The call publishes `payload` on `topic`. -/
def publishes (topic payload : Bytes) : Call → Bool
  | .publish p => p.topic = topic && p.payload = payload
  | .write _ _ => false

/-- What the calls publish on the given topics, in order. -/
def publishedOn (topics : List Bytes) (calls : List Call) :
    List Publication :=
  calls.filterMap fun
    | .publish p => if p.topic ∈ topics then some p else none
    | .write _ _ => none

/-- The responses of both gates. -/
def responses : List Call → List Publication :=
  publishedOn [ascii "entry/response", ascii "exit/response"]

def statuses : List Call → List Publication :=
  publishedOn [ascii "system/status"]

/-- How often a gate has answered `ALLOW`. -/
def allowed (r : BoundedCounter.Request) (calls : List Call) : Nat :=
  calls.countP (publishes (responseTopic r) (ascii "ALLOW"))

theorem publishedOn_append (topics : List Bytes) (xs ys : List Call) :
    publishedOn topics (xs ++ ys) =
      publishedOn topics xs ++ publishedOn topics ys :=
  List.filterMap_append

theorem allowed_append (r : BoundedCounter.Request) (xs ys : List Call) :
    allowed r (xs ++ ys) = allowed r xs + allowed r ys :=
  List.countP_append

/-- Setting the LED publishes nothing. -/
theorem setInsideLed_silent (on : Bool) (s : Server) :
    (∀ topics, publishedOn topics (setInsideLed on s) = []) ∧
      ∀ r, allowed r (setInsideLed on s) = 0 := by
  unfold setInsideLed
  dsimp only
  split
  · exact ⟨fun _ => rfl, fun _ => rfl⟩
  · exact ⟨fun _ => rfl, fun _ => rfl⟩

theorem updateInsideLed_silent (s : Server) :
    (∀ topics, publishedOn topics (updateInsideLed s) = []) ∧
      ∀ r, allowed r (updateInsideLed s) = 0 :=
  setInsideLed_silent _ s

/-- A status is no response, whatever it says. -/
theorem status_silent (max n : Int) :
    responses [.publish (status max n)] = [] ∧
      statuses [.publish (status max n)] = [status max n] ∧
      ∀ r, allowed r [.publish (status max n)] = 0 := by
  have hentry : ascii "system/status" ≠ ascii "entry/response" := by decide
  have hexit : ascii "system/status" ≠ ascii "exit/response" := by decide
  refine ⟨?_, ?_, ?_⟩
  · simp [responses, publishedOn, status, hentry, hexit]
  · simp [statuses, publishedOn, status]
  · intro r
    cases r with
    | up => simp [allowed, publishes, status, responseTopic, hentry]
    | down => simp [allowed, publishes, status, responseTopic, hexit]

/-- A response is no status, and counts as `ALLOW` for its own gate only. -/
theorem response_published (r : BoundedCounter.Request) (allow : Bool) :
    responses [.publish (response r allow)] = [response r allow] ∧
      statuses [.publish (response r allow)] = [] ∧
      ∀ r', allowed r' [.publish (response r allow)] =
        if r' = r ∧ allow = true then 1 else 0 := by
  refine ⟨?_, ?_, fun r' => ?_⟩
  · cases r <;> cases allow <;> decide
  · cases r <;> cases allow <;> decide
  · cases r <;> cases allow <;> cases r' <;> decide

/-! ## One message -/

/-- The three parts of what `on_message` publishes. -/
theorem onMessage_publishes {max : Int} {s : Server} (hmax : max < 0x80000000)
    (h : BoundedCounter.InBounds max s.currentCount) (m : Message) :
    responses (onMessage max s m).2 =
        responses (answer max s.currentCount m) ∧
      statuses (onMessage max s m).2 =
        statuses (answer max s.currentCount m) ++
          [status max (onMessage max s m).1.currentCount] ∧
      ∀ r, allowed r (onMessage max s m).2 =
        allowed r (answer max s.currentCount m) := by
  rw [onMessage_eq hmax h]
  dsimp only
  have hled := updateInsideLed_silent
    { s with currentCount := countAfter max s.currentCount m }
  have hstatus := status_silent max (countAfter max s.currentCount m)
  refine ⟨?_, ?_, ?_⟩
  · unfold responses at hstatus ⊢
    rw [publishedOn_append, publishedOn_append, hled.1, hstatus.1,
      List.append_nil, List.append_nil]
  · unfold statuses at hstatus ⊢
    rw [publishedOn_append, publishedOn_append, hled.1, hstatus.2.1,
      List.append_nil]
  · intro r
    rw [allowed_append, allowed_append, hled.2, hstatus.2.2]
    rfl

/-- A message moves the count by the `ALLOW`s it brings. -/
theorem onMessage_count {max : Int} {s : Server} (hmax : max < 0x80000000)
    (h : BoundedCounter.InBounds max s.currentCount) (m : Message) :
    (onMessage max s m).1.currentCount =
      s.currentCount + allowed .up (onMessage max s m).2 -
        allowed .down (onMessage max s m).2 := by
  have hallowed := (onMessage_publishes hmax h m).2.2
  rw [hallowed, hallowed, onMessage_eq hmax h]
  show countAfter max s.currentCount m = _
  unfold countAfter answer
  cases request m with
  | none =>
      show s.currentCount = s.currentCount + (0 : Nat) - (0 : Nat)
      omega
  | some r =>
      dsimp only
      rw [(response_published r _).2.2, (response_published r _).2.2]
      unfold BoundedCounter.next
      cases hg : BoundedCounter.grants max s.currentCount r with
      | false =>
          simp
      | true =>
          cases r with
          | up =>
              show s.currentCount + 1 = s.currentCount + (1 : Nat) - (0 : Nat)
              omega
          | down =>
              show s.currentCount + -1 = s.currentCount + (0 : Nat) - (1 : Nat)
              omega

/-! ## Sessions -/

/-- The count stays within its bounds and counts the people inside. -/
theorem serve_count {max : Int} {s : Server} (hmax : max < 0x80000000)
    (h : BoundedCounter.InBounds max s.currentCount) (msgs : List Message) :
    BoundedCounter.InBounds max (serve max s msgs).1.currentCount ∧
      (serve max s msgs).1.currentCount =
        s.currentCount + allowed .up (serve max s msgs).2 -
          allowed .down (serve max s msgs).2 := by
  induction msgs generalizing s with
  | nil =>
      refine ⟨h, ?_⟩
      show s.currentCount = s.currentCount + (0 : Nat) - (0 : Nat)
      omega
  | cons m msgs ih =>
      have hcount := onMessage_count hmax h m
      have hnext : BoundedCounter.InBounds max
          (onMessage max s m).1.currentCount := by
        rw [onMessage_eq hmax h]
        exact countAfter_inBounds h m
      obtain ⟨hbounds, hrest⟩ := ih hnext
      refine ⟨hbounds, ?_⟩
      show (serve max (onMessage max s m).1 msgs).1.currentCount =
        s.currentCount +
            allowed .up ((onMessage max s m).2 ++
              (serve max (onMessage max s m).1 msgs).2) -
          allowed .down ((onMessage max s m).2 ++
            (serve max (onMessage max s m).1 msgs).2)
      rw [allowed_append, allowed_append]
      omega

/-- The message is exactly a request to enter. -/
def EntryRequest (m : Message) : Prop :=
  m.topic.bytes = ascii "entry/request" ∧ m.payload = some (ascii "ENTER")

/-- The message is exactly a request to leave. -/
def ExitRequest (m : Message) : Prop :=
  m.topic.bytes = ascii "exit/request" ∧ m.payload = some (ascii "EXIT")

/-- What becomes of a message: `n` is the count before it, `n'` the count
after it and `calls` are the calls that were made for it. -/
structure Handled (m : Message) (n n' : Int) (calls : List Call) : Prop where
  entry : EntryRequest m →
    (n = maxCount → responses calls =
      [⟨ascii "entry/response", ascii "DENY", 0, false⟩] ∧ n' = n) ∧
    (n ≠ maxCount → responses calls =
      [⟨ascii "entry/response", ascii "ALLOW", 0, false⟩] ∧ n' = n + 1)
  exit : ExitRequest m →
    (n = 0 → responses calls =
      [⟨ascii "exit/response", ascii "DENY", 0, false⟩] ∧ n' = n) ∧
    (n ≠ 0 → responses calls =
      [⟨ascii "exit/response", ascii "ALLOW", 0, false⟩] ∧ n' = n - 1)
  other : ¬ EntryRequest m → ¬ ExitRequest m → responses calls = [] ∧ n' = n
  status : statuses calls =
    [⟨ascii "system/status",
      ascii "count=" ++ decimal n' ++ ascii ",max=" ++ decimal maxCount ++
        ascii ",full=" ++ decimal (if n' = maxCount then 1 else 0),
      0, false⟩]
  statusLast : calls.getLast? =
    (statuses calls).getLast?.map Call.publish

/-- The three kinds of messages. -/
theorem request_cases (m : Message) :
    (EntryRequest m ∧ ¬ ExitRequest m ∧ request m = some .up) ∨
      (ExitRequest m ∧ ¬ EntryRequest m ∧ request m = some .down) ∨
      (¬ EntryRequest m ∧ ¬ ExitRequest m ∧ request m = none) := by
  have htopics : ascii "entry/request" ≠ ascii "exit/request" := by decide
  unfold request
  by_cases hexit : ExitRequest m
  · have hentry : ¬ EntryRequest m := by
      intro h
      rw [EntryRequest, hexit.1] at h
      exact htopics h.1.symm
    rw [if_pos (by exact hexit)]
    exact Or.inr (Or.inl ⟨hexit, hentry, rfl⟩)
  · rw [if_neg (by exact hexit)]
    by_cases hentry : EntryRequest m
    · rw [if_pos (by exact hentry)]
      exact Or.inl ⟨hentry, hexit, rfl⟩
    · rw [if_neg (by exact hentry)]
      exact Or.inr (Or.inr ⟨hentry, hexit, rfl⟩)

/-- The `full` field is 1 exactly at `MAX_COUNT`. -/
theorem status_eq {max n : Int} (h : BoundedCounter.InBounds max n) :
    status max n =
      ⟨ascii "system/status",
        ascii "count=" ++ decimal n ++ ascii ",max=" ++ decimal max ++
          ascii ",full=" ++ decimal (if n = max then 1 else 0),
        0, false⟩ := by
  have hhi := h.2
  have hfull : max ≤ n ↔ n = max := by omega
  simp only [status, statusText, hfull]

/-- A request is turned down exactly where its gate stays shut. -/
theorem answer_request {max n bound : Int} {m : Message}
    {r : BoundedCounter.Request} (hreq : request m = some r)
    (hshut : BoundedCounter.grants max n r = false ↔ n = bound) :
    (n = bound → responses (answer max n m) = [response r false] ∧
      countAfter max n m = n) ∧
    (n ≠ bound → responses (answer max n m) = [response r true] ∧
      countAfter max n m = n + r.delta) := by
  simp only [answer, countAfter, hreq, BoundedCounter.next,
    (response_published r _).1]
  cases hg : BoundedCounter.grants max n r with
  | false =>
      have heq := hshut.mp hg
      exact ⟨fun _ => ⟨rfl, rfl⟩, fun hne => absurd heq hne⟩
  | true =>
      refine ⟨fun heq => ?_, fun _ => ⟨rfl, rfl⟩⟩
      rw [hshut.mpr heq] at hg
      cases hg

/-- A request to enter is turned down exactly when the room is full. -/
theorem answer_entry {max n : Int} (h : BoundedCounter.InBounds max n)
    {m : Message} (hreq : request m = some .up) :
    (n = max → responses (answer max n m) =
        [⟨ascii "entry/response", ascii "DENY", 0, false⟩] ∧
      countAfter max n m = n) ∧
    (n ≠ max → responses (answer max n m) =
        [⟨ascii "entry/response", ascii "ALLOW", 0, false⟩] ∧
      countAfter max n m = n + 1) :=
  answer_request hreq (BoundedCounter.not_grants_up_iff h)

/-- A request to leave is turned down exactly when the room is empty. -/
theorem answer_exit {max n : Int} (h : BoundedCounter.InBounds max n)
    {m : Message} (hreq : request m = some .down) :
    (n = 0 → responses (answer max n m) =
        [⟨ascii "exit/response", ascii "DENY", 0, false⟩] ∧
      countAfter max n m = n) ∧
    (n ≠ 0 → responses (answer max n m) =
        [⟨ascii "exit/response", ascii "ALLOW", 0, false⟩] ∧
      countAfter max n m = n - 1) :=
  answer_request hreq (BoundedCounter.not_grants_down_iff h)

/-- Any other message gets no answer. -/
theorem answer_other (max n : Int) {m : Message} (hreq : request m = none) :
    responses (answer max n m) = [] ∧ countAfter max n m = n := by
  unfold answer countAfter
  rw [hreq]
  exact ⟨rfl, rfl⟩

/-- An answer is no status. -/
theorem statuses_answer (max n : Int) (m : Message) :
    statuses (answer max n m) = [] := by
  unfold answer
  cases request m with
  | none => rfl
  | some r => exact (response_published r _).2.1

/-- Every message is handled as the protocol says. -/
theorem onMessage_handled {s : Server}
    (h : BoundedCounter.InBounds maxCount s.currentCount) (m : Message) :
    Handled m s.currentCount (onMessage maxCount s m).1.currentCount
      (onMessage maxCount s m).2 := by
  have hmax : maxCount < 0x80000000 := by decide
  have hafter := countAfter_inBounds h m
  have hpub := onMessage_publishes hmax h m
  have hresp := hpub.1
  have hstat := hpub.2.1
  have hcount : (onMessage maxCount s m).1.currentCount =
      countAfter maxCount s.currentCount m := by
    rw [onMessage_eq hmax h]
  have hlast : (onMessage maxCount s m).2.getLast? = some (.publish
      (status maxCount (countAfter maxCount s.currentCount m))) := by
    rw [onMessage_eq hmax h]
    exact List.getLast?_concat
  rw [hcount, statuses_answer, List.nil_append] at hstat
  rw [hcount]
  refine
    { entry := fun hentry => ?_
      exit := fun hexit => ?_
      other := fun hentry hexit => ?_
      status := ?_
      statusLast := ?_ }
  · rw [hresp]
    rcases request_cases m with hm | hm | hm
    · exact answer_entry h hm.2.2
    · exact absurd hentry hm.2.1
    · exact absurd hentry hm.1
  · rw [hresp]
    rcases request_cases m with hm | hm | hm
    · exact absurd hexit hm.2.1
    · exact answer_exit h hm.2.2
    · exact absurd hexit hm.2.1
  · rw [hresp]
    rcases request_cases m with hm | hm | hm
    · exact absurd hm.1 hentry
    · exact absurd hm.1 hexit
    · exact answer_other maxCount s.currentCount hm.2.2
  · rw [hstat, status_eq hafter]
  · rw [hlast, hstat]
    rfl

/-- For every session from an empty room: after every message the count is
between 0 and `MAX_COUNT` and equals the `ALLOW`s of the entry gate minus
those of the exit gate, and the next message is handled as the protocol
says. -/
theorem occupancy_protocol (fd : Int) (msgs : List Message) :
    (0 ≤ (serve maxCount ⟨0, fd⟩ msgs).1.currentCount ∧
        (serve maxCount ⟨0, fd⟩ msgs).1.currentCount ≤ maxCount) ∧
      (serve maxCount ⟨0, fd⟩ msgs).1.currentCount =
        (allowed .up (serve maxCount ⟨0, fd⟩ msgs).2 : Int) -
          allowed .down (serve maxCount ⟨0, fd⟩ msgs).2 ∧
      ∀ m : Message,
        Handled m (serve maxCount ⟨0, fd⟩ msgs).1.currentCount
          (onMessage maxCount (serve maxCount ⟨0, fd⟩ msgs).1 m).1.currentCount
          (onMessage maxCount (serve maxCount ⟨0, fd⟩ msgs).1 m).2 := by
  have hstart : BoundedCounter.InBounds maxCount
      (⟨0, fd⟩ : Server).currentCount := by
    show BoundedCounter.InBounds maxCount 0
    constructor <;> decide
  obtain ⟨hbounds, hcount⟩ := serve_count (by decide) hstart msgs
  refine ⟨hbounds, ?_, onMessage_handled hbounds⟩
  rw [hcount]
  show (0 : Int) + _ - _ = _
  omega

end EmbeddedSystem.Team.ServerPiApp
