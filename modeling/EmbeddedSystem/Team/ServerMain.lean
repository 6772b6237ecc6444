import EmbeddedSystem.Team.Occupancy
import EmbeddedSystem.Team.Pi2LedDriver

/-!
# `main` of `server_pi_app.c`, next to the LED driver

`main` opens the LED device, switches the LED off, connects to the broker and
hands control to `mosquitto_loop` until a signal stops it.  Its statements and
the calls that it and `on_message` make to the outside are single steps.  A
write goes to the driver; a publication is accepted by `mosquitto_publish` or
refused.  A signal may arrive between any two steps.

`on_message` counts before it publishes and ignores what `mosquitto_publish`
returns.  So `current_count` is about the `ALLOW`s that were issued, whether
or not they could be sent (`count_issued`).
-/

set_option autoImplicit false

namespace EmbeddedSystem.Team.ServerMain

open EmbeddedSystem.Verified
open EmbeddedSystem.Verified.CString
open EmbeddedSystem.Verified.Transition
open EmbeddedSystem.Team.ServerPiApp
open EmbeddedSystem.Team.Pi2LedDriver (Pi2Led pi2LedWrite loadedLed)

/-! ## State -/

/-- `MOSQ_ERR_SUCCESS` -/
def mosqErrSuccess : Int := 0

/-- The next statement of `main`. -/
inductive MainPc where
  | openLed
  | ledOff
  | mosquittoNew
  | connect
  /-- the condition of the loop -/
  | test
  /-- inside `mosquitto_loop` -/
  | loop
  | reconnect
  | ledOffAgain
  | disconnect
  | returned (code : Int)
deriving DecidableEq, Repr

/-- The server, the calls it is in the middle of, and the driver.  No code
reads what has been recorded: the results of the writes, the publications
that were accepted and refused, and how many messages were handled. -/
structure System where
  server : Server
  running : Bool
  pc : MainPc
  todo : List Call
  led : Pi2Led
  writeRets : List Int
  accepted : List Publication
  refused : List Publication
  handled : Nat
deriving DecidableEq, Repr

/-- The start of `main`, with the driver loaded for GPIO `g`. -/
def start (g : Int) : System :=
  { server := ⟨0, -1⟩
    running := true
    pc := .openLed
    todo := []
    led := loadedLed g
    writeRets := []
    accepted := []
    refused := []
    handled := 0 }

/-! ## Steps -/

inductive Event where
  /-- `handle_signal` -/
  | signal
  /-- the next statement of `main`, and what the call in it returns -/
  | proceed (ret : Int)
  /-- `mosquitto_loop` hands a message to `on_message` -/
  | message (m : Message)
  /-- the next call to the outside, and what `mosquitto_publish` returns -/
  | perform (rc : Int)

/-- One call to the outside.  The user copy of a write succeeds. -/
def perform (s : System) (rc : Int) : Option System :=
  match s.todo with
  | [] => none
  | .publish p :: rest =>
      if rc = mosqErrSuccess then
        some { s with todo := rest, accepted := s.accepted ++ [p] }
      else some { s with todo := rest, refused := s.refused ++ [p] }
  | .write _ data :: rest =>
      some
        { s with
          todo := rest
          led := (pi2LedWrite s.led data 0).1
          writeRets := s.writeRets ++ [(pi2LedWrite s.led data 0).2] }

/-- One statement of `main`; `ret` is the file descriptor, 0 for a null
pointer, or the error code, depending on the call. -/
def mainStep (s : System) (ret : Int) : Option System :=
  match s.pc with
  | .openLed =>
      let s := { s with server := { s.server with ledFd := ret } }
      some { s with pc := if ret < 0 then .returned 1 else .ledOff }
  | .ledOff =>
      some { s with todo := setInsideLed false s.server, pc := .mosquittoNew }
  | .mosquittoNew =>
      some { s with pc := if ret = 0 then .returned 1 else .connect }
  | .connect =>
      some { s with pc := if ret ≠ mosqErrSuccess then .returned 1 else .test }
  | .test => some { s with pc := if s.running then .loop else .ledOffAgain }
  | .loop =>
      some { s with pc := if ret ≠ mosqErrSuccess then .reconnect else .test }
  | .reconnect => some { s with pc := .test }
  | .ledOffAgain =>
      some { s with todo := setInsideLed false s.server, pc := .disconnect }
  | .disconnect => some { s with pc := .returned 0 }
  | .returned _ => none

/-- One step.  Neither `main` nor another message goes on before the calls
that are under way have been made. -/
def step (s : System) : Event → Option System
  | .signal => some { s with running := false }
  | .proceed ret => if s.todo = [] then mainStep s ret else none
  | .message m =>
      if s.todo = [] ∧ s.pc = .loop then
        some
          { s with
            server := (onMessage maxCount s.server m).1
            todo := (onMessage maxCount s.server m).2
            handled := s.handled + 1 }
      else none
  | .perform rc => perform s rc

/-! ## What the steps can do -/

/-- The steps, one constructor for each way that matters. -/
inductive Step (s : System) : System → Prop where
  | signal : Step s { s with running := false }
  | openLed (fd : Int) (hpc : s.pc = .openLed) (htodo : s.todo = []) :
      Step s
        { s with
          server := { s.server with ledFd := fd }
          pc := if fd < 0 then .returned 1 else .ledOff }
  | ledOff (hpc : s.pc = .ledOff) (htodo : s.todo = []) :
      Step s
        { s with todo := setInsideLed false s.server, pc := .mosquittoNew }
  | mosquittoNew (hpc : s.pc = .mosquittoNew) (htodo : s.todo = [])
      (pc : MainPc) (hnext : pc = .returned 1 ∨ pc = .connect) :
      Step s { s with pc := pc }
  | connect (hpc : s.pc = .connect) (htodo : s.todo = [])
      (pc : MainPc) (hnext : pc = .returned 1 ∨ pc = .test) :
      Step s { s with pc := pc }
  | loop (hpc : s.pc = .test ∨ s.pc = .loop ∨ s.pc = .reconnect)
      (htodo : s.todo = []) (pc : MainPc)
      (hnext : pc = .test ∨ pc = .loop ∨ pc = .reconnect ∨
        pc = .ledOffAgain) :
      Step s { s with pc := pc }
  | ledOffAgain (hpc : s.pc = .ledOffAgain) (htodo : s.todo = []) :
      Step s { s with todo := setInsideLed false s.server, pc := .disconnect }
  | disconnect (hpc : s.pc = .disconnect) (htodo : s.todo = []) :
      Step s { s with pc := .returned 0 }
  | message (m : Message) (hpc : s.pc = .loop) (htodo : s.todo = []) :
      Step s
        { s with
          server := (onMessage maxCount s.server m).1
          todo := (onMessage maxCount s.server m).2
          handled := s.handled + 1 }
  | accept (p : Publication) (rest : List Call)
      (htodo : s.todo = .publish p :: rest) :
      Step s { s with todo := rest, accepted := s.accepted ++ [p] }
  | refuse (p : Publication) (rest : List Call)
      (htodo : s.todo = .publish p :: rest) :
      Step s { s with todo := rest, refused := s.refused ++ [p] }
  | write (fd : Int) (data : Bytes) (rest : List Call)
      (htodo : s.todo = .write fd data :: rest) :
      Step s
        { s with
          todo := rest
          led := (pi2LedWrite s.led data 0).1
          writeRets := s.writeRets ++ [(pi2LedWrite s.led data 0).2] }

theorem mainStep_cases {s t : System} {ret : Int} (htodo : s.todo = [])
    (h : mainStep s ret = some t) : Step s t := by
  unfold mainStep at h
  split at h
  case h_1 hpc =>
    cases h
    exact .openLed ret hpc htodo
  case h_2 hpc =>
    cases h
    exact .ledOff hpc htodo
  case h_3 hpc =>
    cases h
    refine .mosquittoNew hpc htodo _ ?_
    split
    · exact Or.inl rfl
    · exact Or.inr rfl
  case h_4 hpc =>
    cases h
    refine .connect hpc htodo _ ?_
    split
    · exact Or.inl rfl
    · exact Or.inr rfl
  case h_5 hpc =>
    cases h
    refine .loop (Or.inl hpc) htodo _ ?_
    split
    · exact Or.inr (Or.inl rfl)
    · exact Or.inr (Or.inr (Or.inr rfl))
  case h_6 hpc =>
    cases h
    refine .loop (Or.inr (Or.inl hpc)) htodo _ ?_
    split
    · exact Or.inr (Or.inr (Or.inl rfl))
    · exact Or.inl rfl
  case h_7 hpc =>
    cases h
    exact .loop (Or.inr (Or.inr hpc)) htodo _ (Or.inl rfl)
  case h_8 hpc =>
    cases h
    exact .ledOffAgain hpc htodo
  case h_9 hpc =>
    cases h
    exact .disconnect hpc htodo
  case h_10 => cases h

theorem step_cases {s t : System} {e : Event} (h : step s e = some t) :
    Step s t := by
  cases e with
  | signal =>
      cases h
      exact .signal
  | proceed ret =>
      simp only [step] at h
      split at h
      case isTrue htodo => exact mainStep_cases htodo h
      case isFalse => cases h
  | message m =>
      simp only [step] at h
      split at h
      case isTrue hm =>
        cases h
        exact .message m hm.2 hm.1
      case isFalse => cases h
  | perform rc =>
      simp only [step, perform] at h
      split at h
      case h_1 => cases h
      case h_2 p rest htodo =>
        split at h
        · cases h
          exact .accept p rest htodo
        · cases h
          exact .refuse p rest htodo
      case h_3 fd data rest htodo =>
        cases h
        exact .write fd data rest htodo

/-! ## The count against what was sent -/

/-- How many of the publications are `ALLOW`s of a gate. -/
def allows (r : BoundedCounter.Request) (ps : List Publication) : Nat :=
  allowed r (ps.map .publish)

/-- The `ALLOW`s of a gate that were handed to `mosquitto_publish` or are
about to be. -/
def issued (r : BoundedCounter.Request) (s : System) : Nat :=
  allows r s.accepted + allows r s.refused + allowed r s.todo

/-- The count is that of the `ALLOW`s issued. -/
structure Counted (s : System) : Prop where
  inBounds : BoundedCounter.InBounds maxCount s.server.currentCount
  count : s.server.currentCount = (issued .up s : Int) - issued .down s

theorem start_counted (g : Int) : Counted (start g) := by
  refine ⟨?_, rfl⟩
  show BoundedCounter.InBounds maxCount 0
  constructor <;> decide

theorem allows_concat (r : BoundedCounter.Request) (ps : List Publication)
    (p : Publication) :
    allows r (ps ++ [p]) = allows r ps + allowed r [.publish p] := by
  unfold allows
  rw [List.map_append, allowed_append]
  rfl

/-- The first call under way, apart from the others. -/
theorem allowed_cons (r : BoundedCounter.Request) (c : Call)
    (cs : List Call) : allowed r (c :: cs) = allowed r [c] + allowed r cs :=
  allowed_append r [c] cs

/-- A step that issues no `ALLOW` and leaves the count alone. -/
theorem Counted.of_eq {s t : System} (h : Counted s)
    (hcount : t.server.currentCount = s.server.currentCount)
    (hissued : ∀ r, issued r t = issued r s) : Counted t := by
  refine ⟨by rw [hcount]; exact h.inBounds, ?_⟩
  rw [hcount, hissued, hissued]
  exact h.count

theorem Counted.step {s t : System} {e : Event} (h : Counted s)
    (hst : ServerMain.step s e = some t) : Counted t := by
  cases step_cases hst with
  | signal => exact h.of_eq rfl fun _ => rfl
  | openLed fd => exact h.of_eq rfl fun _ => rfl
  | mosquittoNew => exact h.of_eq rfl fun _ => rfl
  | connect => exact h.of_eq rfl fun _ => rfl
  | loop => exact h.of_eq rfl fun _ => rfl
  | disconnect => exact h.of_eq rfl fun _ => rfl
  | ledOff _ htodo =>
      refine h.of_eq rfl fun r => ?_
      show allows r s.accepted + allows r s.refused +
        allowed r (setInsideLed false s.server) = _
      rw [(setInsideLed_silent false s.server).2, issued, htodo]
      rfl
  | ledOffAgain _ htodo =>
      refine h.of_eq rfl fun r => ?_
      show allows r s.accepted + allows r s.refused +
        allowed r (setInsideLed false s.server) = _
      rw [(setInsideLed_silent false s.server).2, issued, htodo]
      rfl
  | message m hpc htodo =>
      have hmax : maxCount < 0x80000000 := by decide
      have hmoved := onMessage_count hmax h.inBounds m
      have hbefore := h.count
      have hnone : ∀ r, allowed r s.todo = 0 := fun r => by rw [htodo]; rfl
      unfold issued at hbefore
      rw [hnone, hnone] at hbefore
      constructor
      · show BoundedCounter.InBounds maxCount
          (onMessage maxCount s.server m).1.currentCount
        rw [onMessage_eq hmax h.inBounds]
        exact countAfter_inBounds h.inBounds m
      · show (onMessage maxCount s.server m).1.currentCount = _
        unfold issued
        dsimp only
        omega
  | accept p rest htodo =>
      refine h.of_eq rfl fun r => ?_
      show allows r (s.accepted ++ [p]) + allows r s.refused +
        allowed r rest = issued r s
      rw [issued, htodo, allowed_cons, allows_concat]
      omega
  | refuse p rest htodo =>
      refine h.of_eq rfl fun r => ?_
      show allows r s.accepted + allows r (s.refused ++ [p]) +
        allowed r rest = issued r s
      rw [issued, htodo, allowed_cons, allows_concat]
      omega
  | write fd data rest htodo =>
      refine h.of_eq rfl fun r => ?_
      have hsilent : allowed r [.write fd data] = 0 := rfl
      unfold issued
      rw [htodo, allowed_cons, hsilent, Nat.zero_add]

/-- `mosquitto_publish` changes no count, whether it accepts a response or
refuses it. -/
theorem perform_count {s t : System} {rc : Int}
    (h : step s (.perform rc) = some t) :
    t.server.currentCount = s.server.currentCount := by
  simp only [step, perform] at h
  split at h
  · cases h
  · split at h
    · cases h
      rfl
    · cases h
      rfl
  · cases h
    rfl

/-- What the count is about in a state: between two messages it is the number
of entry `ALLOW`s that `on_message` handed to `mosquitto_publish`, minus the
number of exit `ALLOW`s, whether they were accepted or refused; and it is the
difference of those accepted exactly when as many entry as exit `ALLOW`s were
refused. -/
structure CountIssued (s : System) : Prop where
  bounds : 0 ≤ s.server.currentCount ∧ s.server.currentCount ≤ maxCount
  issued : s.todo = [] → s.server.currentCount =
    ((allows .up s.accepted : Int) + allows .up s.refused) -
      (allows .down s.accepted + allows .down s.refused)
  accepted_iff : s.todo = [] →
    (s.server.currentCount =
        (allows .up s.accepted : Int) - allows .down s.accepted ↔
      allows .up s.refused = allows .down s.refused)
  perform : ∀ (rc : Int) (t : System), step s (.perform rc) = some t →
    t.server.currentCount = s.server.currentCount

/-- In every run of `main`, whatever messages arrive and whichever
publications are refused. -/
theorem count_issued {g : Int} {es : List Event} {s : System}
    (hrun : run step (start g) es = some s) : CountIssued s := by
  have h : Counted s := run_induct (P := Counted)
    (fun _ _ _ hs hst => hs.step hst) (start_counted g) hrun
  have hcount : s.todo = [] → s.server.currentCount =
      ((allows .up s.accepted : Int) + allows .up s.refused) -
        (allows .down s.accepted + allows .down s.refused) := by
    intro htodo
    have hall := h.count
    have hnone : ∀ r, allowed r s.todo = 0 := fun r => by rw [htodo]; rfl
    unfold issued at hall
    rw [hnone, hnone] at hall
    omega
  refine ⟨h.inBounds, hcount, fun htodo => ?_, fun _ _ hst =>
    perform_count hst⟩
  have hall := hcount htodo
  omega

/-- An entry request. -/
def enterMessage : Message :=
  ⟨topicEntryRequest, some (ascii "ENTER"), 5, by decide⟩

/-- `main` starts, and the first request to enter is granted, but its
response cannot be sent; `MOSQ_ERR_NO_CONN` is 4. -/
def refusedRun : List Event :=
  [ .proceed 3, .proceed 0, .perform 0, .proceed 1, .proceed 0, .proceed 0
  , .message enterMessage, .perform 4, .perform 0, .perform 0 ]

theorem count_issued_refusedRun :
    ∃ s, run step (start 5) refusedRun = some s ∧ CountIssued s := by
  have hsome : (run step (start 5) refusedRun).isSome = true := by
    decide +kernel
  obtain ⟨s, hrun⟩ := Option.isSome_iff_exists.mp hsome
  exact ⟨s, hrun, count_issued hrun⟩

/-- One entry is counted, and no `ALLOW` was accepted. -/
theorem refusedRun_counts :
    ∃ s, run step (start 5) refusedRun = some s ∧ s.todo = [] ∧
      s.refused = [response .up true] ∧ s.accepted = [status maxCount 1] ∧
      s.server.currentCount = 1 ∧
      s.server.currentCount ≠
        (allows .up s.accepted : Int) - allows .down s.accepted := by
  have hend : (run step (start 5) refusedRun).map
      (fun s => (s.todo, s.refused, s.accepted, s.server.currentCount)) =
        some ([], [response .up true], [status maxCount 1], 1) := by
    decide +kernel
  obtain ⟨s, hrun, hs⟩ := Option.map_eq_some_iff.mp hend
  obtain ⟨htodo, hs⟩ := Prod.mk.inj hs
  obtain ⟨hrefused, hs⟩ := Prod.mk.inj hs
  obtain ⟨haccepted, hcount⟩ := Prod.mk.inj hs
  refine ⟨s, hrun, htodo, hrefused, haccepted, hcount, ?_⟩
  rw [haccepted, hcount]
  decide +kernel

end EmbeddedSystem.Team.ServerMain
