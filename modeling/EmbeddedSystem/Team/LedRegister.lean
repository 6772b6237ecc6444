import EmbeddedSystem.Team.Pi2LedDriver
import EmbeddedSystem.Verified.CallPool
import EmbeddedSystem.Verified.SectionLog

/-!
# The LED device as a register

Any number of processes open `/dev/pi2_led_dev`, read it and write to it at
the same time.  `pi2_led_read` and `pi2_led_write` are modelled statement by
statement; a section under `led_lock` is one atomic step.  `sections` lists
these sections in their order, `answers` what the reads have returned in
theirs; no code reads either.

The device is a register that the pin mirrors: a read that delivers anything
delivers the last value accepted before its own section.  A file delivers one
such report, since its position is past 0 afterwards.  `led_gpio` is not
stored to here, and reads of one file do not overlap (`ReadsApart`), as the
kernel sees to with the lock of the file position.
-/

set_option autoImplicit false

namespace EmbeddedSystem.Team.LedRegister

open EmbeddedSystem.Verified
open EmbeddedSystem.Verified.CString
open EmbeddedSystem.Verified.Uaccess
open EmbeddedSystem.Verified.Transition
open EmbeddedSystem.Verified.CallPool
open EmbeddedSystem.Verified.SectionLog
open EmbeddedSystem.Team.Pi2LedDriver (Pi2Led pi2LedInit InitRets unloaded
  loadedLed eq_loadedLed pi2LedRead pi2LedWrite goodRets defaultLedGpio)

/-! ## The device -/

/-- A section under `led_lock` by call `who`.  `reject` is a section that
found an invalid command. -/
inductive Section where
  | read (who : Nat)
  | write (who : Nat) (value : Bool)
  | reject (who : Nat)
deriving DecidableEq, Repr

def Section.who : Section → Nat
  | .read who => who
  | .write who _ => who
  | .reject who => who

/-- What read `who` has returned, and the bytes that it has delivered. -/
structure Answer where
  who : Nat
  file : Nat
  ret : Int
  data : Bytes
deriving DecidableEq, Repr

/-- The driver, and the position of every file that was opened. -/
structure Device where
  driver : Pi2Led
  files : List Nat
  sections : List Section
  answers : List Answer
deriving DecidableEq, Repr

/-- `kbuf` of `pi2_led_read`. -/
def report (ledState : Bool) : Bytes := ascii (if ledState then "1\n" else "0\n")

/-- The next statement of a `pi2_led_read`. -/
inductive ReadPc where
  | test
  | lock
  | copy (kbuf : Bytes)
  | returned (ret : Int) (data : Bytes)
deriving DecidableEq, Repr

structure ReadCall where
  file : Nat
  count : Nat
  pc : ReadPc
deriving DecidableEq, Repr

/-- The read returns. -/
def Device.answer (g : Device) (i : Nat) (r : ReadCall) (ret : Int)
    (data : Bytes) : Device × ReadCall :=
  ({ g with answers := g.answers ++ [⟨i, r.file, ret, data⟩] },
    { r with pc := .returned ret data })

/-- One step of `pi2_led_read`; `left` is what `copy_to_user` returns. -/
def readStep (g : Device) (i : Nat) (r : ReadCall) (left : Nat) :
    Option (Device × ReadCall) :=
  match g.files[r.file]? with
  | none => none
  | some ppos =>
      match r.pc with
      | .test =>
          if 0 < ppos then some (g.answer i r 0 [])
          else some (g, { r with pc := .lock })
      | .lock =>
          some ({ g with sections := g.sections ++ [.read i] },
            { r with pc := .copy (report g.driver.ledState) })
      | .copy kbuf =>
          if r.count < kbuf.length then some (g.answer i r (-einval) [])
          else if left ≠ 0 then
            some (g.answer i r (-efault) (kbuf.take (kbuf.length - left)))
          else
            some ({ g with
              files := g.files.set r.file (ppos + kbuf.length)
              }.answer i r kbuf.length kbuf)
      | .returned _ _ => none

/-- The next statement of a `pi2_led_write`. -/
inductive WritePc where
  | copy
  | lock (cmd : UInt8)
  | returned (ret : Int)
deriving DecidableEq, Repr

/-- A `pi2_led_write` of `buf.length` bytes. -/
structure WriteCall where
  buf : Bytes
  pc : WritePc
deriving DecidableEq, Repr

/-- The locked section sets the GPIO and `led_state`. -/
def Device.drive (g : Device) (i : Nat) (value : Bool) : Device :=
  { g with
    driver :=
      { g.driver.call (.gpioSetValue g.driver.ledGpio value) with
        ledState := value }
    sections := g.sections ++ [.write i value] }

/-- One step of `pi2_led_write`; `left` is what `copy_from_user` returns. -/
def writeStep (g : Device) (i : Nat) (w : WriteCall) (left : Nat) :
    Option (Device × WriteCall) :=
  match w.pc with
  | .copy =>
      match w.buf with
      | [] => some (g, { w with pc := .returned (-einval) })
      | cmd :: _ =>
          if left ≠ 0 then some (g, { w with pc := .returned (-efault) })
          else some (g, { w with pc := .lock cmd })
  | .lock cmd =>
      if [cmd] = ascii "1" then
        some (g.drive i true, { w with pc := .returned w.buf.length })
      else if [cmd] = ascii "0" then
        some (g.drive i false, { w with pc := .returned w.buf.length })
      else
        some ({ g with sections := g.sections ++ [.reject i] },
          { w with pc := .returned (-einval) })
  | .returned _ => none

/-- A call on the device. -/
inductive Request where
  | openFile
  | read (file count : Nat)
  | write (buf : Bytes)
deriving DecidableEq, Repr

/-- A call in flight; `openFile` knows whether it has returned. -/
inductive Call where
  | openFile (returned : Bool)
  | read (r : ReadCall)
  | write (w : WriteCall)
deriving DecidableEq, Repr

def enter : Request → Call
  | .openFile => .openFile false
  | .read file count => .read ⟨file, count, .test⟩
  | .write buf => .write ⟨buf, .copy⟩

/-- One step of a call.  `pi2_led_open` does nothing; the new file starts at
position 0. -/
def ledStep (g : Device) (i : Nat) (l : Call) (left : Nat) :
    Option (Device × Call) :=
  match l with
  | .openFile false =>
      some ({ g with files := g.files ++ [0] }, .openFile true)
  | .openFile true => none
  | .read r => (readStep g i r left).map fun x => (x.1, .read x.2)
  | .write w => (writeStep g i w left).map fun x => (x.1, .write x.2)

/-- What a call has returned. -/
def Call.result : Call → Option Int
  | .openFile true => some 0
  | .read ⟨_, _, .returned ret _⟩ => some ret
  | .write ⟨_, .returned ret⟩ => some ret
  | _ => none

abbrev Conf := CallPool.Conf Device Call

abbrev Move := CallPool.Move Request Nat

def step : Conf → Move → Option Conf := CallPool.step enter ledStep

/-- The device with a driver that was just loaded. -/
def device (d : Pi2Led) : Conf := CallPool.start ⟨d, [], [], []⟩

/-! ## What the steps can do -/

/-- The steps of `readStep`, one constructor for each way through it. -/
inductive ReadStep (g : Device) (i : Nat) (r : ReadCall) :
    Device → ReadCall → Prop where
  | eof (ppos : Nat) (hfile : g.files[r.file]? = some ppos)
      (hpc : r.pc = .test) (hpos : 0 < ppos) :
      ReadStep g i r (g.answer i r 0 []).1 (g.answer i r 0 []).2
  | first (hfile : g.files[r.file]? = some 0) (hpc : r.pc = .test) :
      ReadStep g i r g { r with pc := .lock }
  | lock (hpc : r.pc = .lock) :
      ReadStep g i r { g with sections := g.sections ++ [.read i] }
        { r with pc := .copy (report g.driver.ledState) }
  | error (kbuf : Bytes) (code : Int) (data : Bytes) (hpc : r.pc = .copy kbuf)
      (hcode : code < 0) :
      ReadStep g i r (g.answer i r code data).1 (g.answer i r code data).2
  | deliver (kbuf : Bytes) (ppos : Nat) (hpc : r.pc = .copy kbuf)
      (hfile : g.files[r.file]? = some ppos) :
      ReadStep g i r
        ({ g with
          files := g.files.set r.file (ppos + kbuf.length)
          }.answer i r kbuf.length kbuf).1
        { r with pc := .returned kbuf.length kbuf }

theorem readStep_cases {g g' : Device} {i left : Nat} {r r' : ReadCall}
    (h : readStep g i r left = some (g', r')) : ReadStep g i r g' r' := by
  unfold readStep at h
  split at h
  case h_1 => cases h
  case h_2 ppos hfile =>
    split at h
    case h_1 hpc =>
      split at h
      case isTrue hpos =>
        cases h
        exact .eof ppos hfile hpc hpos
      case isFalse hpos =>
        have hzero : ppos = 0 := by omega
        subst hzero
        cases h
        exact .first hfile hpc
    case h_2 hpc =>
      cases h
      exact .lock hpc
    case h_3 kbuf hpc =>
      split at h
      case isTrue =>
        cases h
        exact .error kbuf (-einval) [] hpc (by decide)
      case isFalse =>
        split at h
        case isTrue =>
          cases h
          exact .error kbuf (-efault) _ hpc (by decide)
        case isFalse =>
          cases h
          exact .deliver kbuf ppos hpc hfile
    case h_4 => cases h

/-- The byte that commands a value. -/
def digit (value : Bool) : Bytes := ascii (if value then "1" else "0")

/-- The steps of `writeStep`, one constructor for each way through it. -/
inductive WriteStep (g : Device) (i : Nat) (w : WriteCall) :
    Device → WriteCall → Prop where
  | error (code : Int) (hpc : w.pc = .copy) (hcode : code < 0) :
      WriteStep g i w g { w with pc := .returned code }
  | copied (cmd : UInt8) (hpc : w.pc = .copy) (hbuf : w.buf.take 1 = [cmd]) :
      WriteStep g i w g { w with pc := .lock cmd }
  | accept (cmd : UInt8) (value : Bool) (hpc : w.pc = .lock cmd)
      (hcmd : [cmd] = digit value) :
      WriteStep g i w (g.drive i value)
        { w with pc := .returned w.buf.length }
  | reject (cmd : UInt8) (code : Int) (hpc : w.pc = .lock cmd)
      (hcode : code < 0) :
      WriteStep g i w { g with sections := g.sections ++ [.reject i] }
        { w with pc := .returned code }

theorem writeStep_cases {g g' : Device} {i left : Nat} {w w' : WriteCall}
    (h : writeStep g i w left = some (g', w')) : WriteStep g i w g' w' := by
  unfold writeStep at h
  split at h
  case h_1 hpc =>
    split at h
    case h_1 =>
      cases h
      exact .error (-einval) hpc (by decide)
    case h_2 cmd rest hbuf =>
      split at h
      case isTrue =>
        cases h
        exact .error (-efault) hpc (by decide)
      case isFalse =>
        cases h
        exact .copied cmd hpc (by rw [hbuf]; rfl)
  case h_2 cmd hpc =>
    split at h
    case isTrue hone =>
      cases h
      exact .accept cmd true hpc hone
    case isFalse =>
      split at h
      case isTrue hzero =>
        cases h
        exact .accept cmd false hpc hzero
      case isFalse =>
        cases h
        exact .reject cmd (-einval) hpc (by decide)
  case h_3 => cases h

theorem ledStep_cases {g g' : Device} {i left : Nat} {l l' : Call}
    (h : ledStep g i l left = some (g', l')) :
    (l = .openFile false ∧ l' = .openFile true ∧
      g' = { g with files := g.files ++ [0] }) ∨
    (∃ r r', l = .read r ∧ l' = .read r' ∧ ReadStep g i r g' r') ∨
      ∃ w w', l = .write w ∧ l' = .write w' ∧ WriteStep g i w g' w' := by
  unfold ledStep at h
  split at h
  case h_1 =>
    cases h
    exact Or.inl ⟨rfl, rfl, rfl⟩
  case h_2 => cases h
  case h_3 r =>
    obtain ⟨⟨_, r'⟩, hr, heq⟩ := Option.map_eq_some_iff.mp h
    cases heq
    exact Or.inr (Or.inl ⟨r, r', rfl, rfl, readStep_cases hr⟩)
  case h_4 w =>
    obtain ⟨⟨_, w'⟩, hw, heq⟩ := Option.map_eq_some_iff.mp h
    cases heq
    exact Or.inr (Or.inr ⟨w, w', rfl, rfl, writeStep_cases hw⟩)

/-! ## Reads of one file -/

/-- The call is a read of the file that has not returned yet. -/
def Call.reading (file : Nat) : Call → Bool
  | .read ⟨_, _, .returned _ _⟩ => false
  | .read r => r.file = file
  | _ => false

/-- A read is issued only when no read of the same file is in progress. -/
def ReadsApart (c : Conf) : Move → Prop
  | .issue (.read file _) => ∀ l ∈ c.calls, l.reading file = false
  | _ => True

instance (c : Conf) : ∀ mv, Decidable (ReadsApart c mv)
  | .issue (.read file _) =>
      inferInstanceAs (Decidable (∀ l ∈ c.calls, l.reading file = false))
  | .issue .openFile => inferInstanceAs (Decidable True)
  | .issue (.write _) => inferInstanceAs (Decidable True)
  | .advance _ _ => inferInstanceAs (Decidable True)

/-- At most one read of a file is in progress. -/
def Apart (c : Conf) : Prop :=
  ∀ (file i j : Nat) (l m : Call), c.calls[i]? = some l →
    c.calls[j]? = some m → l.reading file = true →
    m.reading file = true → i = j

/-- A read keeps its file until it returns. -/
theorem ReadStep.reading {g g' : Device} {i file : Nat} {r r' : ReadCall}
    (h : ReadStep g i r g' r')
    (hafter : (Call.read r').reading file = true) :
    (Call.read r).reading file = true := by
  obtain ⟨f, count, pc⟩ := r
  cases h with
  | first hfile hpc =>
      cases hpc
      exact hafter
  | lock hpc =>
      cases hpc
      exact hafter
  | _ => cases hafter

theorem reading_of_ledStep {g g' : Device} {i file left : Nat} {l l' : Call}
    (h : ledStep g i l left = some (g', l'))
    (hafter : l'.reading file = true) : l.reading file = true := by
  rcases ledStep_cases h with
    ⟨-, hl', -⟩ | ⟨r, r', hr, hr', hread⟩ | ⟨w, w', -, hw', -⟩
  · rw [hl'] at hafter
    cases hafter
  · rw [hr'] at hafter
    rw [hr]
    exact hread.reading hafter
  · rw [hw'] at hafter
    cases hafter

theorem apart_step (c : Conf) (mv : Move) (d : Conf) (h : Apart c)
    (hC : ReadsApart c mv) (hst : step c mv = some d) : Apart d := by
  intro file j k m n hm hn hmr hnr
  rcases step_cases hst with
    ⟨q, hmv, hd⟩ | ⟨i, o, l, g, l', hmv, hl, hb, hd⟩
  · subst hmv hd
    -- a new call reads a file that nobody else reads
    have hnew : ∀ (a : Nat) (x : Call), c.calls[a]? = some x →
        (enter q).reading file = true → x.reading file = false := by
      intro a x hx hq
      cases q with
      | openFile => cases hq
      | write buf => cases hq
      | read f count =>
          have hf : f = file := of_decide_eq_true hq
          rw [← hf]
          exact hC x (List.mem_of_getElem? hx)
    rcases lookup_append_cases hm with hmold | ⟨rfl, rfl⟩
    · rcases lookup_append_cases hn with hnold | ⟨rfl, rfl⟩
      · exact h file j k m n hmold hnold hmr hnr
      · rw [hnew j m hmold hnr] at hmr
        cases hmr
    · rcases lookup_append_cases hn with hnold | ⟨rfl, -⟩
      · rw [hnew k n hnold hmr] at hnr
        cases hnr
      · rfl
  · subst hmv hd
    -- every call that reads the file read it before
    have hback : ∀ (a : Nat) (x : Call), (c.calls.set i l')[a]? = some x →
        x.reading file = true →
        ∃ y : Call, c.calls[a]? = some y ∧ y.reading file = true := by
      intro a x hx hxr
      rcases lookup_set_cases hl hx with ⟨rfl, rfl⟩ | ⟨-, hold⟩
      · exact ⟨l, hl, reading_of_ledStep hb hxr⟩
      · exact ⟨x, hold, hxr⟩
    obtain ⟨m', hm', hmr'⟩ := hback j m hm hmr
    obtain ⟨n', hn', hnr'⟩ := hback k n hn hnr
    exact h file j k m' n' hm' hn' hmr' hnr'

theorem apart_device (d : Pi2Led) : Apart (device d) := by
  intro file i j l m hl
  simp [device, start] at hl

/-! ## The invariant -/

/-- The value after one more section. -/
def Section.update (value : Bool) : Section → Bool
  | .read _ => value
  | .write _ written => written
  | .reject _ => value

/-- The value of the last accepted write, and 0 if there was none. -/
def lastWritten (sections : List Section) : Bool :=
  sections.foldl Section.update false

theorem lastWritten_append_one (sections : List Section) (s : Section) :
    lastWritten (sections ++ [s]) = s.update (lastWritten sections) := by
  rw [lastWritten, List.foldl_append]
  rfl

/-- What the reads of one file have returned. -/
def answersOf (file : Nat) (answers : List Answer) : List Answer :=
  answers.filter fun a => a.file = file

/-- Errors, then a report, then nothing but end-of-file; the position says
whether the report was delivered. -/
def FileOk (ppos : Nat) (answers : List Answer) : Prop :=
  ∃ errs, (∀ a ∈ errs, a.ret < 0) ∧
    ((ppos = 0 ∧ answers = errs) ∨
      (ppos = 2 ∧ ∃ rep eofs, answers = errs ++ rep :: eofs ∧ rep.ret = 2 ∧
        ∀ a ∈ eofs, a.ret = 0))

/-- Call `i` has had one section, it read, and `kbuf` reports the value of
the last write before it. -/
def Reported (g : Device) (i : Nat) (kbuf : Bytes) : Prop :=
  ∃ before, Placed Section.who before (.read i) g.sections ∧
    kbuf = report (lastWritten before)

/-- The shared part of the invariant for the GPIO `led`, when `n` calls were
issued. -/
structure DeviceOk (led : Int) (n : Nat) (g : Device) : Prop where
  ledGpio : g.driver.ledGpio = led
  mirrored : GpioCall.level led g.driver.gpio = some g.driver.ledState
  lastWrite : g.driver.ledState = lastWritten g.sections
  issued : ∀ s ∈ g.sections, s.who < n
  files : ∀ file ppos, g.files[file]? = some ppos →
    FileOk ppos (answersOf file g.answers)
  unopened : ∀ file, g.files[file]? = none → answersOf file g.answers = []

def ReadOk (g : Device) (i : Nat) (r : ReadCall) : Prop :=
  match r.pc with
  | .test => Silent Section.who i g.sections
  | .lock => Silent Section.who i g.sections ∧ g.files[r.file]? = some 0
  | .copy kbuf => Reported g i kbuf ∧ g.files[r.file]? = some 0
  | .returned ret data =>
      (ret = 2 → Reported g i data) ∧ ⟨i, r.file, ret, data⟩ ∈ g.answers

def WriteOk (g : Device) (i : Nat) (w : WriteCall) : Prop :=
  match w.pc with
  | .copy => Silent Section.who i g.sections
  | .lock cmd => Silent Section.who i g.sections ∧ w.buf.take 1 = [cmd]
  | .returned ret =>
      (∃ value, .write i value ∈ g.sections ∧ w.buf.take 1 = digit value ∧
        ret = w.buf.length) ∨
      (ret < 0 ∧ ∀ value, .write i value ∉ g.sections)

/-- What call `i` has done so far is what its next statement presupposes. -/
def CallOk (g : Device) (i : Nat) : Call → Prop
  | .openFile _ => Silent Section.who i g.sections
  | .read r => ReadOk g i r
  | .write w => WriteOk g i w

theorem length_report (ledState : Bool) : (report ledState).length = 2 := by
  cases ledState <;> decide

/-! ## Answers of a file -/

theorem answersOf_append (file : Nat) (xs ys : List Answer) :
    answersOf file (xs ++ ys) = answersOf file xs ++ answersOf file ys :=
  List.filter_append xs ys

/-- One more answer from a file at this position. -/
theorem FileOk.error {ppos : Nat} {answers : List Answer} {a : Answer}
    (h : FileOk ppos answers) (hpos : ppos = 0) (ha : a.ret < 0) :
    FileOk ppos (answers ++ [a]) := by
  obtain ⟨errs, herrs, ⟨-, heq⟩ | ⟨htwo, -⟩⟩ := h
  · refine ⟨errs ++ [a], fun b hb => ?_, Or.inl ⟨hpos, by rw [heq]⟩⟩
    rcases List.mem_append.mp hb with hold | hnew
    · exact herrs b hold
    · rw [List.mem_singleton.mp hnew]
      exact ha
  · omega

theorem FileOk.report {answers : List Answer} {a : Answer}
    (h : FileOk 0 answers) (ha : a.ret = 2) : FileOk 2 (answers ++ [a]) := by
  obtain ⟨errs, herrs, ⟨-, heq⟩ | ⟨htwo, -⟩⟩ := h
  · exact ⟨errs, herrs, Or.inr ⟨rfl, a, [], by rw [heq], ha,
      fun b hb => by cases hb⟩⟩
  · omega

theorem FileOk.eof {ppos : Nat} {answers : List Answer} {a : Answer}
    (h : FileOk ppos answers) (hpos : 0 < ppos) (ha : a.ret = 0) :
    FileOk ppos (answers ++ [a]) := by
  obtain ⟨errs, herrs, ⟨hzero, -⟩ | ⟨htwo, rep, eofs, heq, hrep, heofs⟩⟩ := h
  · omega
  · refine ⟨errs, herrs, Or.inr ⟨htwo, rep, eofs ++ [a], ?_, hrep, ?_⟩⟩
    · rw [heq, List.append_assoc]
      rfl
    · intro b hb
      rcases List.mem_append.mp hb with hold | hnew
      · exact heofs b hold
      · rw [List.mem_singleton.mp hnew]
        exact ha

/-! ## A step keeps the invariant of the device -/

/-- One more answer from an open file, whose position is then `ppos'`. -/
theorem DeviceOk.answer {led : Int} {n : Nat} {g : Device}
    (h : DeviceOk led n g) {a : Answer} {ppos ppos' : Nat}
    (hopen : g.files[a.file]? = some ppos)
    (hok : FileOk ppos' (answersOf a.file g.answers ++ [a])) :
    DeviceOk led n
      { g with
        files := g.files.set a.file ppos'
        answers := g.answers ++ [a] } := by
  have hone : answersOf a.file [a] = [a] := by simp [answersOf]
  have hnone : ∀ file, a.file ≠ file → answersOf file [a] = [] := by
    intro file hne
    simp [answersOf, hne]
  refine
    { h with
      files := fun file p hp => ?_
      unopened := fun file hfile => ?_ }
  · show FileOk p (answersOf file (g.answers ++ [a]))
    rw [answersOf_append]
    rcases lookup_set_cases hopen hp with ⟨rfl, rfl⟩ | ⟨hne, hold⟩
    · rw [hone]
      exact hok
    · rw [hnone file hne, List.append_nil]
      exact h.files file p hold
  · show answersOf file (g.answers ++ [a]) = []
    have hfile : (g.files.set a.file ppos')[file]? = none := hfile
    have hne : a.file ≠ file := by
      rintro rfl
      rw [lookup_set_self hopen] at hfile
      cases hfile
    rw [List.getElem?_set_ne hne] at hfile
    rw [answersOf_append, hnone file hne, List.append_nil]
    exact h.unopened file hfile

/-- One more answer that leaves the position alone. -/
theorem DeviceOk.answer_same {led : Int} {n : Nat} {g : Device}
    (h : DeviceOk led n g) {a : Answer} {ppos : Nat}
    (hopen : g.files[a.file]? = some ppos)
    (hok : FileOk ppos (answersOf a.file g.answers ++ [a])) :
    DeviceOk led n { g with answers := g.answers ++ [a] } := by
  have hset : g.files.set a.file ppos = g.files := by
    obtain ⟨hlt, rfl⟩ := List.getElem?_eq_some_iff.mp hopen
    exact List.set_getElem_self hlt
  have hnew := h.answer hopen hok
  rw [hset] at hnew
  exact hnew

/-- A section that does not set the LED. -/
theorem DeviceOk.idleSection {led : Int} {n : Nat} {g : Device}
    (h : DeviceOk led n g) {s : Section} (hs : s.who < n)
    (hupdate : ∀ value, s.update value = value) :
    DeviceOk led n { g with sections := g.sections ++ [s] } := by
  refine { h with lastWrite := ?_, issued := fun s' hs' => ?_ }
  · show g.driver.ledState = lastWritten (g.sections ++ [s])
    rw [lastWritten_append_one, hupdate]
    exact h.lastWrite
  · rcases List.mem_append.mp hs' with hold | hnew
    · exact h.issued s' hold
    · rw [List.mem_singleton.mp hnew]
      exact hs

/-- A section that sets it. -/
theorem DeviceOk.drive {led : Int} {n i : Nat} {g : Device}
    (h : DeviceOk led n g) (hi : i < n) (value : Bool) :
    DeviceOk led n (g.drive i value) := by
  refine
    { h with
      ledGpio := h.ledGpio
      mirrored := ?_
      lastWrite := ?_
      issued := fun s hs => ?_ }
  · show GpioCall.level led
      (g.driver.gpio ++ [.gpioSetValue g.driver.ledGpio value]) = some value
    rw [h.ledGpio]
    exact GpioCall.level_gpioSetValue led g.driver.gpio value
  · show value = lastWritten (g.sections ++ [.write i value])
    rw [lastWritten_append_one]
    rfl
  · rcases List.mem_append.mp hs with hold | hnew
    · exact h.issued s hold
    · rw [List.mem_singleton.mp hnew]
      exact hi

/-- A file that was just opened has given no answer. -/
theorem DeviceOk.openFile {led : Int} {n : Nat} {g : Device}
    (h : DeviceOk led n g) :
    DeviceOk led n { g with files := g.files ++ [0] } := by
  refine
    { h with
      files := fun file p hp => ?_
      unopened := fun file hfile => ?_ }
  · rcases lookup_append_cases hp with hold | ⟨rfl, rfl⟩
    · exact h.files file p hold
    · have hnone : g.files[g.files.length]? = none :=
        List.getElem?_eq_none (Nat.le_refl _)
      exact ⟨[], fun a ha => absurd ha List.not_mem_nil,
        Or.inl ⟨rfl, h.unopened _ hnone⟩⟩
  · apply h.unopened file
    have hlen : (g.files ++ [0]).length ≤ file :=
      List.getElem?_eq_none_iff.mp hfile
    rw [List.length_append] at hlen
    exact List.getElem?_eq_none (by omega)

theorem ReadStep.own {led : Int} {n i : Nat} {g g' : Device}
    {r r' : ReadCall} (hi : i < n) (h : DeviceOk led n g) (hok : ReadOk g i r)
    (hst : ReadStep g i r g' r') : DeviceOk led n g' ∧ ReadOk g' i r' := by
  have hlast : ∀ a : Answer, a ∈ g.answers ++ [a] :=
    fun a => List.mem_append_right _ List.mem_cons_self
  unfold ReadOk at hok
  cases hst with
  | eof ppos hfile hpc hpos =>
      refine ⟨h.answer_same (a := ⟨i, r.file, 0, []⟩) hfile ?_,
        fun htwo => absurd htwo (by decide), hlast _⟩
      exact (h.files r.file ppos hfile).eof hpos rfl
  | first hfile hpc =>
      rw [hpc] at hok
      exact ⟨h, hok, hfile⟩
  | lock hpc =>
      rw [hpc] at hok
      refine ⟨h.idleSection hi fun _ => rfl, ⟨g.sections, ?_, ?_⟩, hok.2⟩
      · exact Silent.placed (s := Section.read i) hok.1
      · rw [h.lastWrite]
  | error kbuf code data hpc hcode =>
      rw [hpc] at hok
      refine ⟨h.answer_same (a := ⟨i, r.file, code, data⟩) hok.2 ?_,
        fun htwo => ?_, hlast _⟩
      · exact (h.files r.file 0 hok.2).error rfl hcode
      · omega
  | deliver kbuf ppos hpc hfile =>
      rw [hpc] at hok
      obtain ⟨⟨before, hplaced, hkbuf⟩, hzero⟩ := hok
      have hlen : kbuf.length = 2 := by rw [hkbuf, length_report]
      rw [hfile, Option.some.injEq] at hzero
      subst hzero
      have hfileOk := (h.files r.file 0 hfile).report
        (a := ⟨i, r.file, kbuf.length, kbuf⟩) (by rw [hlen]; rfl)
      refine ⟨?_, fun _ => ⟨before, hplaced, hkbuf⟩, hlast _⟩
      have hnew := h.answer (a := ⟨i, r.file, kbuf.length, kbuf⟩) hfile hfileOk
      show DeviceOk led n
        { g with
          files := g.files.set r.file (0 + kbuf.length)
          answers := g.answers ++ [⟨i, r.file, kbuf.length, kbuf⟩] }
      rw [hlen] at hnew ⊢
      exact hnew

theorem WriteStep.own {led : Int} {n i : Nat} {g g' : Device}
    {w w' : WriteCall} (hi : i < n) (h : DeviceOk led n g)
    (hok : WriteOk g i w) (hst : WriteStep g i w g' w') :
    DeviceOk led n g' ∧ WriteOk g' i w' := by
  have hsilent : Silent Section.who i g.sections →
      ∀ value, .write i value ∉ g.sections :=
    fun hs value hmem => hs _ hmem rfl
  unfold WriteOk at hok
  cases hst with
  | error code hpc hcode =>
      rw [hpc] at hok
      exact ⟨h, Or.inr ⟨hcode, hsilent hok⟩⟩
  | copied cmd hpc hbuf =>
      rw [hpc] at hok
      exact ⟨h, hok, hbuf⟩
  | accept cmd value hpc hcmd =>
      rw [hpc] at hok
      refine ⟨h.drive hi value, Or.inl ⟨value, ?_, ?_, rfl⟩⟩
      · exact List.mem_append_right _ List.mem_cons_self
      · exact hok.2.trans hcmd
  | reject cmd code hpc hcode =>
      rw [hpc] at hok
      refine ⟨h.idleSection hi fun _ => rfl, Or.inr ⟨hcode, fun value hmem => ?_⟩⟩
      rcases List.mem_append.mp hmem with hold | hnew
      · exact hsilent hok.1 value hold
      · simp at hnew

/-! ## What a step of another call does -/

/-- A step adds at most a section of its own. -/
theorem ledStep_sections {g g' : Device} {i left : Nat} {l l' : Call}
    (h : ledStep g i l left = some (g', l')) :
    Grows Section.who i g.sections g'.sections := by
  rcases ledStep_cases h with
    ⟨-, -, hg⟩ | ⟨r, r', -, -, hread⟩ | ⟨w, w', -, -, hwrite⟩
  · rw [hg]
    exact Or.inl rfl
  · cases hread with
    | lock hpc => exact Or.inr ⟨_, rfl, rfl⟩
    | _ => exact Or.inl rfl
  · cases hwrite with
    | accept cmd value hpc hcmd => exact Or.inr ⟨_, rfl, rfl⟩
    | reject cmd code hpc hcode => exact Or.inr ⟨_, rfl, rfl⟩
    | _ => exact Or.inl rfl

/-- Answers stay. -/
theorem ledStep_answers {g g' : Device} {i left : Nat} {l l' : Call}
    (h : ledStep g i l left = some (g', l')) {a : Answer}
    (ha : a ∈ g.answers) : a ∈ g'.answers := by
  rcases ledStep_cases h with
    ⟨-, -, hg⟩ | ⟨r, r', -, -, hread⟩ | ⟨w, w', -, -, hwrite⟩
  · rw [hg]
    exact ha
  · cases hread with
    | first hfile hpc => exact ha
    | lock hpc => exact ha
    | _ => exact List.mem_append_left _ ha
  · cases hwrite <;> exact ha

/-- Only a read of the file moves its position. -/
theorem ledStep_files {g g' : Device} {i file ppos left : Nat} {l l' : Call}
    (h : ledStep g i l left = some (g', l'))
    (hfile : g.files[file]? = some ppos) :
    g'.files[file]? = some ppos ∨ l.reading file = true := by
  rcases ledStep_cases h with
    ⟨-, -, hg⟩ | ⟨r, r', hr, -, hread⟩ | ⟨w, w', -, -, hwrite⟩
  · rw [hg]
    exact Or.inl (lookup_append_old 0 hfile)
  · cases hread with
    | deliver kbuf p hpc hopen =>
        by_cases hf : r.file = file
        · right
          obtain ⟨f, count, pc⟩ := r
          cases hpc
          rw [hr]
          exact decide_eq_true hf
        · exact Or.inl (lookup_set_ne _ hf hfile)
    | _ => exact Or.inl hfile
  · cases hwrite <;> exact Or.inl hfile

theorem CallOk.other {c : Conf} {i j left : Nat} {l l' m : Call}
    {g' : Device} (hb : Apart c) (hij : i ≠ j) (hl : c.calls[i]? = some l)
    (hm : c.calls[j]? = some m) (h : CallOk c.shared j m)
    (hst : ledStep c.shared i l left = some (g', l')) : CallOk g' j m := by
  have hgrows := ledStep_sections hst
  have hsilent : Silent Section.who j c.shared.sections →
      Silent Section.who j g'.sections := fun hs => hs.grows hij hgrows
  have hreported : ∀ kbuf, Reported c.shared j kbuf → Reported g' j kbuf := by
    rintro kbuf ⟨before, hplaced, hkbuf⟩
    exact ⟨before, hplaced.grows hij hgrows, hkbuf⟩
  -- nobody else moves the position of a file that is being read
  have hposition : ∀ file ppos, m.reading file = true →
      c.shared.files[file]? = some ppos → g'.files[file]? = some ppos := by
    intro file ppos hreading hfile
    rcases ledStep_files hst hfile with hsame | hother
    · exact hsame
    · exact absurd (hb file i j l m hl hm hother hreading) hij
  cases m with
  | openFile returned => exact hsilent h
  | read r =>
      obtain ⟨file, count, pc⟩ := r
      cases pc with
      | test => exact hsilent h
      | lock =>
          exact ⟨hsilent h.1, hposition file 0 (decide_eq_true rfl) h.2⟩
      | copy kbuf =>
          exact ⟨hreported kbuf h.1,
            hposition file 0 (decide_eq_true rfl) h.2⟩
      | returned ret data =>
          exact ⟨fun htwo => hreported data (h.1 htwo),
            ledStep_answers hst h.2⟩
  | write w =>
      obtain ⟨buf, pc⟩ := w
      cases pc with
      | copy => exact hsilent h
      | lock cmd => exact ⟨hsilent h.1, h.2⟩
      | returned ret =>
          have hkeep : ∀ value, .write j value ∈ g'.sections ↔
              .write j value ∈ c.shared.sections :=
            fun _ => hgrows.mem_iff hij
          rcases h with ⟨value, hmem, hbuf, hret⟩ | ⟨hneg, hnone⟩
          · exact Or.inl ⟨value, (hkeep value).mpr hmem, hbuf, hret⟩
          · exact Or.inr ⟨hneg, fun value hmem =>
              hnone value ((hkeep value).mp hmem)⟩

theorem callOk_preserved (led : Int) :
    Preserved enter ledStep Apart (DeviceOk led) CallOk := by
  refine
    { issue := fun n g h =>
        { h with issued := fun s hs => Nat.lt_succ_of_lt (h.issued s hs) }
      enter := fun n g k h => ?_
      own := fun c i l left g' l' _ h hl hok hst => ?_
      other := fun c i l left g' l' j m hb _ hij hl _ hm hok hst =>
        hok.other hb hij hl hm hst }
  · have hsilent : Silent Section.who n g.sections := silent_of_lt h.issued
    cases k with
    | openFile => exact hsilent
    | read file count => exact hsilent
    | write buf => exact hsilent
  · have hi := lookup_lt hl
    rcases ledStep_cases hst with
      ⟨rfl, rfl, rfl⟩ | ⟨r, r', rfl, rfl, hread⟩ | ⟨w, w', rfl, rfl, hwrite⟩
    · exact ⟨h.openFile, hok⟩
    · exact hread.own hi h hok
    · exact hwrite.own hi h hok

/-- The invariant of the runs in which reads of one file do not overlap. -/
def Invariant (led : Int) (c : Conf) : Prop :=
  Apart c ∧ Annotated (DeviceOk led) CallOk c

theorem invariant_device (led : Int) :
    Invariant led (device (loadedLed led)) := by
  refine ⟨apart_device _, annotated_start ?_⟩
  exact
    { ledGpio := rfl
      mirrored := by
        show GpioCall.level led
          [.gpioRequest led, .gpioDirectionOutput led false] = some false
        simp [GpioCall.level, GpioCall.drives]
      lastWrite := rfl
      issued := fun s hs => absurd hs List.not_mem_nil
      files := fun file ppos hfile => by cases hfile
      unopened := fun _ _ => rfl }

theorem invariant_step {led : Int} (c : Conf) (mv : Move) (d : Conf)
    (h : Invariant led c) (hC : ReadsApart c mv) (hst : step c mv = some d) :
    Invariant led d :=
  ⟨apart_step c mv d h.1 hC hst,
    Annotated.step (callOk_preserved led) h.1 h.2 hst⟩

/-! ## The calls as whole functions -/

/-- From its locked section on, a read does what `pi2_led_read` as a whole
would have done at that moment. -/
theorem readStep_copy {g g' : Device} {d : Pi2Led} {i left : Nat}
    {r r' : ReadCall} (hfile : g.files[r.file]? = some 0)
    (hpc : r.pc = .copy (report d.ledState))
    (h : readStep g i r left = some (g', r')) :
    ∃ ret data ppos, pi2LedRead d r.count 0 left = (ret, data, ppos) ∧
      r'.pc = .returned ret data ∧ g'.files[r.file]? = some ppos := by
  have hkbuf : ascii (if d.ledState then "1\n" else "0\n") =
      report d.ledState := rfl
  simp only [readStep, hfile, hpc] at h
  simp only [pi2LedRead, hkbuf, Nat.lt_irrefl, if_false]
  by_cases hcount : r.count < (report d.ledState).length
  · rw [if_pos hcount, Option.some.injEq, Prod.mk.injEq] at h
    obtain ⟨rfl, rfl⟩ := h
    exact ⟨-einval, [], 0, if_pos hcount, rfl, hfile⟩
  · rw [if_neg hcount] at h ⊢
    by_cases hleft : left ≠ 0
    · rw [if_pos hleft, Option.some.injEq, Prod.mk.injEq] at h
      obtain ⟨rfl, rfl⟩ := h
      exact ⟨_, _, _, if_pos hleft, rfl, hfile⟩
    · rw [if_neg hleft, Option.some.injEq, Prod.mk.injEq] at h
      obtain ⟨rfl, rfl⟩ := h
      exact ⟨_, _, _, if_neg hleft, rfl, lookup_set_self hfile⟩

/-- The locked section of a write is the whole of `pi2_led_write` for the
driver. -/
theorem writeStep_lock {g g' : Device} {i left : Nat} {cmd : UInt8}
    {w w' : WriteCall} (hpc : w.pc = .lock cmd) (hbuf : w.buf.take 1 = [cmd])
    (h : writeStep g i w left = some (g', w')) :
    g'.driver = (pi2LedWrite g.driver w.buf 0).1 ∧
      w'.pc = .returned (pi2LedWrite g.driver w.buf 0).2 := by
  obtain ⟨buf, pc⟩ := w
  cases buf with
  | nil => cases hbuf
  | cons c rest =>
      have hc : c = cmd := by simpa using hbuf
      subst hc
      simp only [writeStep, show pc = .lock c from hpc] at h
      simp only [pi2LedWrite, ne_eq, not_true_eq_false, if_false]
      by_cases hone : [c] = ascii "1"
      · rw [if_pos hone, Option.some.injEq, Prod.mk.injEq] at h
        obtain ⟨rfl, rfl⟩ := h
        rw [if_pos hone]
        exact ⟨rfl, rfl⟩
      · rw [if_neg hone] at h ⊢
        by_cases hzero : [c] = ascii "0"
        · rw [if_pos hzero, Option.some.injEq, Prod.mk.injEq] at h
          obtain ⟨rfl, rfl⟩ := h
          rw [if_pos hzero]
          exact ⟨rfl, rfl⟩
        · rw [if_neg hzero, Option.some.injEq, Prod.mk.injEq] at h
          obtain ⟨rfl, rfl⟩ := h
          rw [if_neg hzero]
          exact ⟨rfl, rfl⟩

/-! ## Calls that have returned -/

/-- A call that has returned takes no step. -/
theorem ledStep_returned {g : Device} {i left : Nat} {l : Call} {ret : Int}
    (h : l.result = some ret) : ledStep g i l left = none := by
  unfold Call.result at h
  split at h
  case h_1 => rfl
  case h_2 file count ret' data =>
    show (readStep _ _ _ _).map _ = none
    unfold readStep
    split <;> rfl
  case h_3 => rfl
  case h_4 => cases h

/-- So what it has returned stays. -/
theorem result_stays {c d : Conf} {mvs : List Move} {i : Nat} {l : Call}
    {ret : Int} (hl : c.calls[i]? = some l) (hret : l.result = some ret)
    (hrun : run step c mvs = some d) : d.calls[i]? = some l := by
  refine run_induct (P := fun s : Conf => s.calls[i]? = some l) ?_ hl hrun
  intro s mv t hs hst
  exact lookup_ended hs (fun g o => ledStep_returned hret) hst

/-- A step that changes the driver or a position is the last one of a call
that returns no error. -/
theorem ledStep_changes {g g' : Device} {i left : Nat} {l l' : Call}
    (h : ledStep g i l left = some (g', l')) :
    (g'.driver = g.driver ∧ g'.files = g.files) ∨
      ∃ ret, l'.result = some ret ∧ 0 ≤ ret := by
  rcases ledStep_cases h with
    ⟨-, hl', -⟩ | ⟨r, r', -, hr', hread⟩ | ⟨w, w', -, hw', hwrite⟩
  · exact Or.inr ⟨0, by rw [hl']; rfl, Int.le_refl 0⟩
  · rw [hr']
    cases hread with
    | deliver kbuf ppos hpc hfile =>
        exact Or.inr ⟨kbuf.length, rfl, Int.natCast_nonneg _⟩
    | _ => exact Or.inl ⟨rfl, rfl⟩
  · rw [hw']
    cases hwrite with
    | accept cmd value hpc hcmd =>
        exact Or.inr ⟨w.buf.length, rfl, Int.natCast_nonneg _⟩
    | _ => exact Or.inl ⟨rfl, rfl⟩

/-! ## The result -/

/-- The device is a register that the GPIO `led` mirrors. -/
structure Register (led : Int) (c : Conf) : Prop where
  mirrored :
    GpioCall.level led c.shared.driver.gpio = some c.shared.driver.ledState
  lastWrite : c.shared.driver.ledState = lastWritten c.shared.sections
  /-- an accepted write has a section with the value of its first byte -/
  writes : ∀ (i : Nat) (buf : Bytes) (ret : Int),
    c.calls[i]? = some (.write ⟨buf, .returned ret⟩) → 0 ≤ ret →
    ret = buf.length ∧ ∃ value, .write i value ∈ c.shared.sections ∧
      buf.take 1 = digit value
  /-- what is delivered is the last value before the read's own section -/
  reports : ∀ (i file count : Nat) (data : Bytes),
    c.calls[i]? = some (.read ⟨file, count, .returned 2 data⟩) →
    Reported c.shared i data
  answered : ∀ (i file count : Nat) (ret : Int) (data : Bytes),
    c.calls[i]? = some (.read ⟨file, count, .returned ret data⟩) →
    ⟨i, file, ret, data⟩ ∈ c.shared.answers
  /-- a file gives errors, at most one report, and then end-of-file -/
  oneReport : ∀ file, ∃ errs rest,
    answersOf file c.shared.answers = errs ++ rest ∧
      (∀ a ∈ errs, a.ret < 0) ∧
      (rest = [] ∨ ∃ rep eofs, rest = rep :: eofs ∧ rep.ret = 2 ∧
        ∀ a ∈ eofs, a.ret = 0)

theorem Invariant.register {led : Int} {c : Conf} (h : Invariant led c) :
    Register led c := by
  obtain ⟨-, hshared, hcall⟩ := h
  refine
    { mirrored := hshared.mirrored
      lastWrite := hshared.lastWrite
      writes := fun i buf ret hl hret => ?_
      reports := fun i file count data hl => (hcall i _ hl).1 rfl
      answered := fun i file count ret data hl => (hcall i _ hl).2
      oneReport := fun file => ?_ }
  · rcases hcall i _ hl with ⟨value, hmem, hbuf, hlen⟩ | ⟨hneg, -⟩
    · exact ⟨hlen, value, hmem, hbuf⟩
    · omega
  · cases hfile : c.shared.files[file]? with
    | none =>
        exact ⟨[], [], hshared.unopened file hfile,
          fun a ha => absurd ha List.not_mem_nil, Or.inl rfl⟩
    | some ppos =>
        obtain ⟨errs, herrs, ⟨-, heq⟩ | ⟨-, rep, eofs, heq, hrep, heofs⟩⟩ :=
          hshared.files file ppos hfile
        · exact ⟨errs, [], by rw [heq, List.append_nil], herrs, Or.inl rfl⟩
        · exact ⟨errs, rep :: eofs, heq, herrs,
            Or.inr ⟨rep, eofs, rfl, hrep, heofs⟩⟩

/-- In every run in which reads of one file do not overlap, the device is a
register that the pin mirrors, and no step of a call that returns an error
changes `led_state`, the GPIO or a file position. -/
theorem led_register {rets : InitRets} {led : Int} {d : Pi2Led}
    (hinit : pi2LedInit rets (unloaded led) = (d, 0)) {mvs : List Move}
    {c : Conf} (hreads : Along step ReadsApart (device d) mvs)
    (hrun : run step (device d) mvs = some c) :
    Register led c ∧
      ∀ (mvs₁ mvs₂ : List Move) (i left : Nat) (c₁ c₂ : Conf) (l : Call)
        (code : Int), mvs = mvs₁ ++ .advance i left :: mvs₂ →
        run step (device d) mvs₁ = some c₁ →
        step c₁ (.advance i left) = some c₂ →
        c.calls[i]? = some l → l.result = some code → code < 0 →
        c₂.shared.driver = c₁.shared.driver ∧
          c₂.shared.files = c₁.shared.files := by
  obtain rfl := eq_loadedLed hinit
  have hinv : Invariant led c :=
    run_induct_along invariant_step (invariant_device led) hreads hrun
  refine ⟨hinv.register, ?_⟩
  intro mvs₁ mvs₂ i left c₁ c₂ l code hsplit hrun₁ hst hl hcode hneg
  rw [hsplit, run_append, hrun₁, Option.bind_some, run_cons, hst] at hrun
  have hrest : run step c₂ mvs₂ = some c := hrun
  rcases step_cases hst with
    ⟨k, hmv, -⟩ | ⟨j, o, m, g, m', hmv, hm, hb, hc₂⟩
  · cases hmv
  · cases hmv
    rcases ledStep_changes hb with ⟨hdriver, hfiles⟩ | ⟨ret, hret, hpos⟩
    · rw [hc₂]
      exact ⟨hdriver, hfiles⟩
    · -- then the call has returned `ret`, which is no error
      have hnow : c₂.calls[i]? = some m' := by
        rw [hc₂]
        exact lookup_set_self hm
      have hlast := result_stays hnow hret hrest
      rw [hl, Option.some.injEq] at hlast
      rw [hlast, hret, Option.some.injEq] at hcode
      omega

/-- The LED is switched on while it is being read; of two more reads of the
same file the first one faults and the second one delivers.  A third one gets
end-of-file, and an invalid command is rejected. -/
def sessionRun : List Move :=
  List.flatten
    [ [.issue .openFile, .advance 0 0, .issue (.read 0 1), .issue (.write [0x31])]
    , [.advance 1 0, .advance 1 0, .advance 2 0, .advance 2 0, .advance 1 0]
    , [.issue (.read 0 2), .advance 3 0, .advance 3 0, .advance 3 1]
    , [.issue (.read 0 2), .advance 4 0, .advance 4 0, .advance 4 0]
    , [.issue (.read 0 2), .advance 5 0]
    , [.issue (.write [0x78]), .advance 6 0, .advance 6 0] ]

theorem led_register_sessionRun :
    ∃ c, run step (device (loadedLed defaultLedGpio)) sessionRun = some c ∧
      c.calls.map Call.result =
        [some 0, some (-22), some 1, some (-14), some 2, some 0, some (-22)] ∧
      Register defaultLedGpio c := by
  have hend : (run step (device (loadedLed defaultLedGpio)) sessionRun).map
      (fun c => c.calls.map Call.result) =
        some [some 0, some (-22), some 1, some (-14), some 2, some 0,
          some (-22)] := by
    decide +kernel
  have hinit : pi2LedInit goodRets (unloaded defaultLedGpio) =
      (loadedLed defaultLedGpio, 0) := by
    decide
  obtain ⟨c, hrun, hresults⟩ := Option.map_eq_some_iff.mp hend
  exact ⟨c, hrun, hresults,
    (led_register hinit (by decide +kernel) hrun).1⟩

end EmbeddedSystem.Team.LedRegister
