import EmbeddedSystem.Verified.BoundedCounter
import EmbeddedSystem.Verified.CString

/-!
# The message handler of `server_pi_app.c`

`on_message` handles one MQTT message: it answers a request at one of the two
gates, sets the LED and publishes the status, all under `count_lock`.  A
handler returns the new state together with the calls it makes to the outside,
in their order.  Text printed to the terminal is left out.

`onMessage_eq` is the specification of the whole handler.  It says which
messages are requests (`request`), and that the count follows a bounded
counter that gets these requests.
-/

set_option autoImplicit false

namespace EmbeddedSystem.Team.ServerPiApp

open EmbeddedSystem.Verified
open EmbeddedSystem.Verified.CString

/-! ## Constants -/

/-- `MAX_COUNT` -/
def maxCount : Int := 5

def topicEntryRequest : CStr := ⟨ascii "entry/request", by decide⟩
def topicExitRequest : CStr := ⟨ascii "exit/request", by decide⟩
def topicEntryResponse : CStr := ⟨ascii "entry/response", by decide⟩
def topicExitResponse : CStr := ⟨ascii "exit/response", by decide⟩
def topicSystemStatus : CStr := ⟨ascii "system/status", by decide⟩

/-! ## Data -/

/-- `struct mosquitto_message`, as far as it is read.  A payload that is not
NULL has `payloadlen` bytes. -/
structure Message where
  topic : CStr
  payload : Option Bytes
  payloadlen : Int
  length_eq : ∀ b ∈ payload, payloadlen = b.length

/-- The message a `mosquitto_publish` sends. -/
structure Publication where
  topic : Bytes
  payload : Bytes
  qos : Nat
  retain : Bool
deriving DecidableEq, Repr

/-- A call to the outside. -/
inductive Call where
  | publish (p : Publication)
  | write (fd : Int) (data : Bytes)
deriving DecidableEq, Repr

/-- The globals that the handler uses. -/
structure Server where
  currentCount : Int
  ledFd : Int
deriving DecidableEq, Repr

def mosquittoPublish (topic : CStr) (payloadlen : Nat) (payload : Bytes)
    (qos : Nat) (retain : Bool) : Call :=
  .publish ⟨topic.bytes, payload.take payloadlen, qos, retain⟩

/-! ## Functions -/

def payloadEquals (msg : Option Message) (s : Bytes) : Bool :=
  match msg with
  | none => false
  | some m =>
      match m.payload with
      | none => false
      | some payload =>
          if m.payloadlen ≠ s.length then false
          else memcmp payload s s.length = 0

def setInsideLed (on : Bool) (s : Server) : List Call :=
  let value := if on then ascii "1" else ascii "0"
  if s.ledFd < 0 then [] else [.write s.ledFd value]

def updateInsideLed (s : Server) : List Call :=
  setInsideLed (0 < s.currentCount) s

/-- The arguments of `snprintf` in `publish_status`, put into its format. -/
def statusText (max count : Int) : Bytes :=
  let full := if max ≤ count then 1 else 0
  ascii "count=" ++ decimal count ++ ascii ",max=" ++ decimal max ++
    ascii ",full=" ++ decimal full

def publishStatus (max : Int) (s : Server) : List Call :=
  let status := snprintf 128 (statusText max s.currentCount)
  [mosquittoPublish topicSystemStatus (strlen status) status 0 false]

def handleEntryRequest (max : Int) (s : Server) : Server × List Call :=
  if s.currentCount < max then
    ({ s with currentCount := s.currentCount + 1 },
      [mosquittoPublish topicEntryResponse 5 (ascii "ALLOW") 0 false])
  else (s, [mosquittoPublish topicEntryResponse 4 (ascii "DENY") 0 false])

def handleExitRequest (s : Server) : Server × List Call :=
  if 0 < s.currentCount then
    ({ s with currentCount := s.currentCount - 1 },
      [mosquittoPublish topicExitResponse 5 (ascii "ALLOW") 0 false])
  else (s, [mosquittoPublish topicExitResponse 4 (ascii "DENY") 0 false])

/-- `on_message`; `max` is `MAX_COUNT`. -/
def onMessage (max : Int) (s : Server) (msg : Message) : Server × List Call :=
  let (s', calls) :=
    if strcmp msg.topic topicExitRequest = 0 ∧
        payloadEquals msg (ascii "EXIT") = true then
      handleExitRequest s
    else if strcmp msg.topic topicEntryRequest = 0 ∧
        payloadEquals msg (ascii "ENTER") = true then
      handleEntryRequest max s
    else (s, [])
  (s', calls ++ updateInsideLed s' ++ publishStatus max s')

/-- The messages of a session, handed to `on_message` one after another. -/
def serve (max : Int) (s : Server) : List Message → Server × List Call
  | [] => (s, [])
  | msg :: msgs =>
      let (s', calls) := onMessage max s msg
      let (t, rest) := serve max s' msgs
      (t, calls ++ rest)

/-! ## What a message asks for -/

/-- `payload_equals` compares the whole payload. -/
theorem payloadEquals_iff (m : Message) (s : Bytes) :
    payloadEquals m s = true ↔ m.payload = some s := by
  unfold payloadEquals
  dsimp only
  cases hp : m.payload with
  | none => simp
  | some payload =>
      have hlen := m.length_eq payload hp
      dsimp only
      by_cases hs : m.payloadlen = s.length
      · have heq : payload.length = s.length := by omega
        rw [if_neg (by omega), decide_eq_true_iff,
          memcmp_eq_zero_iff heq rfl, Option.some.injEq]
      · rw [if_pos hs, Option.some.injEq]
        refine iff_of_false (by decide) ?_
        intro heq
        rw [heq] at hlen
        exact hs hlen

/-- The request in a message: an exact topic with its exact payload. -/
def request (m : Message) : Option BoundedCounter.Request :=
  if m.topic.bytes = ascii "exit/request" ∧
      m.payload = some (ascii "EXIT") then some .down
  else if m.topic.bytes = ascii "entry/request" ∧
      m.payload = some (ascii "ENTER") then some .up
  else none

/-- The topic of the gate's responses. -/
def responseTopic : BoundedCounter.Request → Bytes
  | .up => ascii "entry/response"
  | .down => ascii "exit/response"

/-- The response `ALLOW` or `DENY`. -/
def response (r : BoundedCounter.Request) (allow : Bool) : Publication :=
  ⟨responseTopic r, if allow then ascii "ALLOW" else ascii "DENY", 0, false⟩

/-- The status message for a count. -/
def status (max count : Int) : Publication :=
  ⟨ascii "system/status", statusText max count, 0, false⟩

theorem handleEntryRequest_eq (max : Int) (s : Server) :
    handleEntryRequest max s =
      ({ s with currentCount := BoundedCounter.next max s.currentCount .up },
        [.publish (response .up
          (BoundedCounter.grants max s.currentCount .up))]) := by
  unfold handleEntryRequest
  by_cases h : s.currentCount < max
  · have hg : BoundedCounter.grants max s.currentCount .up = true :=
      decide_eq_true h
    rw [if_pos h, BoundedCounter.next, hg]
    rfl
  · have hg : BoundedCounter.grants max s.currentCount .up = false :=
      decide_eq_false h
    rw [if_neg h, BoundedCounter.next, hg]
    rfl

theorem handleExitRequest_eq (max : Int) (s : Server) :
    handleExitRequest s =
      ({ s with currentCount := BoundedCounter.next max s.currentCount .down },
        [.publish (response .down
          (BoundedCounter.grants max s.currentCount .down))]) := by
  unfold handleExitRequest
  by_cases h : 0 < s.currentCount
  · have hg : BoundedCounter.grants max s.currentCount .down = true :=
      decide_eq_true h
    rw [if_pos h, BoundedCounter.next, hg]
    rfl
  · have hg : BoundedCounter.grants max s.currentCount .down = false :=
      decide_eq_false h
    rw [if_neg h, BoundedCounter.next, hg]
    rfl

/-! ## The status fits its buffer -/

/-- The status text of 32-bit numbers is shorter than the buffer. -/
theorem length_statusText_lt {max count : Int} (hmax : max < 0x80000000)
    (h : BoundedCounter.InBounds max count) :
    (statusText max count).length < 128 := by
  have hlo := h.1
  have hhi := h.2
  have hcount := length_decimal_le (n := count) (by omega) (by omega)
  have hmaxlen := length_decimal_le (n := max) (by omega) hmax
  have hfull : (decimal (if max ≤ count then 1 else 0)).length ≤ 11 := by
    split <;> exact length_decimal_le (by decide) (by decide)
  have h1 : (ascii "count=").length = 6 := by decide
  have h2 : (ascii ",max=").length = 5 := by decide
  have h3 : (ascii ",full=").length = 6 := by decide
  unfold statusText
  simp only [List.length_append, h1, h2, h3]
  omega

theorem nulFree_statusText (max count : Int) : 0 ∉ statusText max count := by
  have h1 : 0 ∉ ascii "count=" := by decide
  have h2 : 0 ∉ ascii ",max=" := by decide
  have h3 : 0 ∉ ascii ",full=" := by decide
  unfold statusText
  simp [h1, h2, h3, nulFree_decimal]

theorem publishStatus_eq {max : Int} {s : Server} (hmax : max < 0x80000000)
    (h : BoundedCounter.InBounds max s.currentCount) :
    publishStatus max s = [.publish (status max s.currentCount)] := by
  have htext := take_strlen_snprintf (length_statusText_lt hmax h)
    (nulFree_statusText max s.currentCount)
  unfold publishStatus mosquittoPublish
  dsimp only
  rw [htext]
  rfl

/-! ## The whole handler -/

/-- The count after a message. -/
def countAfter (max n : Int) (m : Message) : Int :=
  match request m with
  | none => n
  | some r => BoundedCounter.next max n r

/-- The response to a message, if it gets one. -/
def answer (max n : Int) (m : Message) : List Call :=
  match request m with
  | none => []
  | some r => [.publish (response r (BoundedCounter.grants max n r))]

theorem countAfter_inBounds {max n : Int} (h : BoundedCounter.InBounds max n)
    (m : Message) : BoundedCounter.InBounds max (countAfter max n m) := by
  unfold countAfter
  cases request m with
  | none => exact h
  | some r => exact h.next r

/-- `on_message` moves the count and answers as the bounded counter does,
whatever the count is. -/
theorem onMessage_calls (max : Int) (s : Server) (m : Message) :
    onMessage max s m =
      ({ s with currentCount := countAfter max s.currentCount m },
        answer max s.currentCount m ++
          updateInsideLed
            { s with currentCount := countAfter max s.currentCount m } ++
          publishStatus max
            { s with currentCount := countAfter max s.currentCount m }) := by
  unfold onMessage countAfter answer request
  simp only [strcmp_eq_zero_iff, payloadEquals_iff]
  by_cases hexit : m.topic.bytes = ascii "exit/request" ∧
      m.payload = some (ascii "EXIT")
  · rw [if_pos hexit, if_pos (by exact hexit), handleExitRequest_eq max]
  · rw [if_neg hexit, if_neg (by exact hexit)]
    by_cases hentry : m.topic.bytes = ascii "entry/request" ∧
        m.payload = some (ascii "ENTER")
    · rw [if_pos hentry, if_pos (by exact hentry), handleEntryRequest_eq]
    · rw [if_neg hentry, if_neg (by exact hentry)]

/-- `on_message` in terms of the bounded counter: the answer, the LED, the
status of the new count. -/
theorem onMessage_eq {max : Int} {s : Server} (hmax : max < 0x80000000)
    (h : BoundedCounter.InBounds max s.currentCount) (m : Message) :
    onMessage max s m =
      ({ s with currentCount := countAfter max s.currentCount m },
        answer max s.currentCount m ++
          updateInsideLed
            { s with currentCount := countAfter max s.currentCount m } ++
          [.publish (status max (countAfter max s.currentCount m))]) := by
  rw [onMessage_calls,
    publishStatus_eq hmax (by exact countAfter_inBounds h m)]

end EmbeddedSystem.Team.ServerPiApp
