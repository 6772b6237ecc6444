import EmbeddedSystem.Labs.Ch3Programs
import EmbeddedSystem.Labs.Ch4Delivery
import EmbeddedSystem.Verified.Programs

/-!
# `ch4_writer.c` and `ch4_reader.c`

Scripts run the two programs one after another, and any number of scripts run
side by side on one module.  A writer that succeeds says what it has put into
the queue, a reader that succeeds what it has taken out.

Whatever the scripts and however they interleave, the strings that the readers
take are the first ones that the writers have put, in one order that agrees
with the order in every script (`scripts_exchange`).
-/

set_option autoImplicit false

namespace EmbeddedSystem.Labs.Ch4Queue

open EmbeddedSystem.Verified
open EmbeddedSystem.Verified.Uaccess
open EmbeddedSystem.Verified.CString
open EmbeddedSystem.Verified.Transition
open EmbeddedSystem.Verified.CallPool
open EmbeddedSystem.Verified.Programs

/-! ## The programs -/

/-- `user_str` of `ch4_writer`, which fills it as `ch3_writer` does. -/
def writerMsg (argv1 : CStr) : MsgSt := Ch3Queue.writerMsg argv1

/-- `user_str.str`, up to its first NUL. -/
def msgText (userStr : MsgSt) : Bytes :=
  (CStr.ofBuffer (Ch3Queue.msgStr userStr)).bytes

/-- A run of one of the programs: a writer with its argument, or a reader
with the contents of its `user_str` before the ioctl. -/
inductive Program where
  | writer (argv1 : CStr)
  | reader (userStr : MsgSt)
deriving DecidableEq, Repr

/-- The ioctl that the program makes. -/
def Program.ioctl : Program → Ioctl
  | .writer argv1 => ⟨ch4IoctlWrite, writerMsg argv1⟩
  | .reader userStr => ⟨ch4IoctlRead, userStr⟩

/-- What `ch4_writer` prints that it has put into the queue. -/
def Program.put : Program → Call → Option Bytes
  | .writer argv1, l =>
      match l.writeResult with
      | none => none
      | some ret => if ret < 0 then none else some (msgText (writerMsg argv1))
  | .reader _, _ => none

/-- What `ch4_reader` prints that it has taken out of the queue. -/
def Program.took : Program → Call → Option Bytes
  | .writer _, _ => none
  | .reader _, .read r =>
      match (Call.read r).readResult with
      | none => none
      | some ret => if ret < 0 then none else some (msgText r.userBuf)
  | .reader _, _ => none

/-- What the programs of a script have printed so far, in their order;
`made` are their calls. -/
def printed (said : Program → Call → Option Bytes) (calls : List Call)
    (script : List Program) (made : List Nat) : List Bytes :=
  (script.zip made).filterMap fun x => (calls[x.2]?).bind (said x.1)

/-! ## The scripts -/

/-- The call has returned. -/
def Call.ended : Call → Bool
  | .read r => (Call.read r).readResult.isSome
  | .write w => (Call.write w).writeResult.isSome
  | .invalid _ => true

/-- What the caller wants. -/
inductive Kind where
  | read
  | write (m : MsgSt)
  | invalid
deriving DecidableEq, Repr

def Call.kind : Call → Kind
  | .read _ => .read
  | .write w => .write w.userBuf
  | .invalid _ => .invalid

abbrev Shells := System Ch4 Call Ioctl

abbrev ShellStep := Action Outcome

/-- The module was loaded, and the scripts start. -/
def started (scripts : List (List Program)) : Shells :=
  boot ch4Init (scripts.map (List.map Program.ioctl))

/-- One step of the module or of a script. -/
def shellStep : Shells → ShellStep → Option Shells :=
  Programs.step ch4Ioctl ch4Step Call.ended

theorem steady : Steady ch4Step Call.ended Call.kind := by
  constructor
  · intro g i l o g' l' h
    rcases ch4Step_cases h with ⟨r, r', rfl, rfl, -⟩ | ⟨w, w', rfl, rfl, hw⟩
    · rfl
    · cases hw <;> rfl
  · intro g i l o hended
    cases l with
    | read r =>
        obtain ⟨code, hcode⟩ := Option.isSome_iff_exists.mp hended
        obtain ⟨r', heq, hpc⟩ := Call.readResult_eq_some hcode
        cases heq
        simp [ch4Step, ch4Read, hpc]
    | write w =>
        obtain ⟨code, hcode⟩ := Option.isSome_iff_exists.mp hended
        obtain ⟨w', heq, hpc⟩ := Call.writeResult_eq_some hcode
        cases heq
        simp [ch4Step, ch4Write, hpc]
    | invalid code => rfl

/-- Only `ch4_write` appends, and only its own message. -/
theorem own_appended : Own ch4Step Ch4.appended Handed.call := by
  intro g i l o g' l' h
  rcases ch4Step_cases h with ⟨r, r', -, -, hr⟩ | ⟨w, w', -, -, hw⟩
  · exact Or.inl (hr.records (j := i)).1
  · cases hw with
    | append n m hpc hcont => exact Or.inr ⟨⟨i, n, m⟩, rfl, rfl⟩
    | _ => exact Or.inl rfl

/-- Only `ch4_read` removes, and only for itself. -/
theorem own_removed : Own ch4Step Ch4.removed Handed.call := by
  intro g i l o g' l' h
  rcases ch4Step_cases h with ⟨r, r', -, -, hr⟩ | ⟨w, w', -, -, hw⟩
  · cases hr with
    | take n b rest t hpc hlist hptr hget => exact Or.inr ⟨⟨i, n, t⟩, rfl, rfl⟩
    | _ => exact Or.inl rfl
  · exact Or.inl (hw.records (j := i)).1

/-! ## What a call has put or taken -/

def Call.putText : Call → Option Bytes
  | .write w =>
      match (Call.write w).writeResult with
      | none => none
      | some ret => if ret < 0 then none else some (msgText w.userBuf)
  | _ => none

def Call.tookText : Call → Option Bytes
  | .read r =>
      match (Call.read r).readResult with
      | none => none
      | some ret => if ret < 0 then none else some (msgText r.userBuf)
  | _ => none

/-- No copy to the reader has fallen short. -/
def Call.whole : Call → Bool
  | .read r => r.uncopied.all (· == 0)
  | _ => true

theorem kind_ioctl (p : Program) :
    (ch4Ioctl p.ioctl).kind =
      match p with
      | .writer argv1 => .write (writerMsg argv1)
      | .reader _ => .read := by
  have hne : ch4IoctlWrite ≠ ch4IoctlRead := by decide
  cases p with
  | writer argv1 => simp [Program.ioctl, ch4Ioctl, hne, Call.kind]
  | reader userStr => simp [Program.ioctl, ch4Ioctl, Call.kind]

theorem put_eq {p : Program} {l : Call}
    (h : l.kind = (ch4Ioctl p.ioctl).kind) : p.put l = l.putText := by
  rw [kind_ioctl] at h
  cases p with
  | writer argv1 =>
      cases l with
      | write w =>
          have hbuf : w.userBuf = writerMsg argv1 := Kind.write.inj h
          simp only [Program.put, Call.putText, hbuf]
      | read r => cases h
      | invalid code => cases h
  | reader userStr =>
      cases l with
      | read r => rfl
      | write w => cases h
      | invalid code => cases h

theorem took_eq {p : Program} {l : Call}
    (h : l.kind = (ch4Ioctl p.ioctl).kind) : p.took l = l.tookText := by
  rw [kind_ioctl] at h
  cases p with
  | writer argv1 =>
      cases l with
      | write w => rfl
      | read r => cases h
      | invalid code => cases h
  | reader userStr =>
      cases l with
      | read r => rfl
      | write w => cases h
      | invalid code => cases h

/-- What the programs print can be read off their calls. -/
theorem printed_eq {said : Program → Call → Option Bytes}
    {text : Call → Option Bytes}
    (hsaid : ∀ (p : Program) (l : Call), l.kind = (ch4Ioctl p.ioctl).kind →
      said p l = text l)
    {calls : List Call} {script : List Program} {q : Proc Ioctl}
    (h : Follows ch4Ioctl Call.ended Call.kind calls
      (script.map Program.ioctl) q) :
    printed said calls script q.made =
      q.made.filterMap fun i => (calls[i]?).bind text := by
  have hkinds := h.kinds
  rw [← List.map_take, List.map_map] at hkinds
  unfold printed
  generalize q.made = made at hkinds
  clear h
  induction made generalizing script with
  | nil => rw [List.zip_nil_right]; rfl
  | cons i made ih =>
      cases script with
      | nil => cases hkinds
      | cons p script =>
          rw [List.map_cons, List.length_cons, List.take_succ_cons,
            List.map_cons, List.cons.injEq] at hkinds
          obtain ⟨l, hl, hkind⟩ := Option.map_eq_some_iff.mp hkinds.1
          rw [List.zip_cons_cons, List.filterMap_cons, List.filterMap_cons, hl,
            Option.bind_some, Option.bind_some, hsaid p l hkind]
          rw [ih hkinds.2]

/-! ## What the module has recorded for a call -/

def Handed.text (x : Handed) : Bytes := msgText x.msg

theorem putText_returned {w : WriteCall} {code : Int}
    (hpc : w.pc = .returned code) :
    (Call.write w).putText =
      if code < 0 then none else some (msgText w.userBuf) := by
  obtain ⟨buf, pc⟩ := w
  cases hpc
  rfl

theorem tookText_returned {r : ReadCall} {code : Int}
    (hpc : r.pc = .returned code) :
    (Call.read r).tookText =
      if code < 0 then none else some (msgText r.userBuf) := by
  obtain ⟨buf, ret, uncopied, pc⟩ := r
  cases hpc
  rfl

theorem writeResult_unreturned {w : WriteCall}
    (hpc : ∀ code, w.pc ≠ .returned code) :
    (Call.write w).ended = false ∧ (Call.write w).putText = none := by
  cases hres : (Call.write w).writeResult with
  | none => simp [Call.ended, Call.putText, hres]
  | some code =>
      obtain ⟨w', heq, hret⟩ := Call.writeResult_eq_some hres
      cases heq
      exact absurd hret (hpc code)

theorem readResult_unreturned {r : ReadCall}
    (hpc : ∀ code, r.pc ≠ .returned code) :
    (Call.read r).ended = false ∧ (Call.read r).tookText = none := by
  cases hres : (Call.read r).readResult with
  | none => simp [Call.ended, Call.tookText, hres]
  | some code =>
      obtain ⟨r', heq, hret⟩ := Call.readResult_eq_some hres
      cases heq
      exact absurd hret (hpc code)

theorem WriteOk.length_le {g : Ch4} {i : Nat} {w : WriteCall}
    (h : WriteOk g i w) (hpc : ∀ code, w.pc ≠ .returned code) :
    (g.appendedBy i).length ≤ 1 := by
  unfold WriteOk at h
  split at h
  case h_7 =>
    obtain ⟨n, happ⟩ := h
    rw [happ]
    exact Nat.le_refl 1
  case h_8 code hret => exact absurd hret (hpc code)
  all_goals simp [h]

theorem ReadOk.length_le {g : Ch4} {i : Nat} {r : ReadCall}
    (h : ReadOk g i r) (hpc : ∀ code, r.pc ≠ .returned code) :
    (g.removedBy i).length ≤ 1 := by
  unfold ReadOk at h
  split at h
  case h_4 =>
    obtain ⟨t, htook, -⟩ := h
    rw [htook]
    exact Nat.le_refl 1
  case h_5 =>
    obtain ⟨t, htook, -⟩ := h
    rw [htook]
    exact Nat.le_refl 1
  case h_6 code hret => exact absurd hret (hpc code)
  all_goals simp [h]

/-- A writer that has returned says what it has appended. -/
theorem appended_put {g : Ch4} {i : Nat} {l : Call} (h : CallOk g i l) :
    (g.appendedBy i).map Handed.text = l.putText.toList ∨
      l.ended = false ∧ l.putText = none ∧
        ((g.appendedBy i).map Handed.text).length ≤ 1 := by
  cases l with
  | read r =>
      rw [h.1]
      exact Or.inl rfl
  | invalid code =>
      rw [h.1]
      exact Or.inl rfl
  | write w =>
      have hw := h.2
      by_cases hret : ∃ code, w.pc = .returned code
      · obtain ⟨code, hpc⟩ := hret
        rw [WriteOk, hpc] at hw
        rw [putText_returned hpc]
        left
        rcases hw with ⟨hnil, hneg⟩ | ⟨rfl, n, happ⟩
        · rw [hnil, if_pos hneg]
          rfl
        · rw [happ]
          rfl
      · have hpc : ∀ code, w.pc ≠ .returned code :=
          fun code h => hret ⟨code, h⟩
        obtain ⟨hended, hput⟩ := writeResult_unreturned hpc
        rw [List.length_map]
        exact Or.inr ⟨hended, hput, hw.length_le hpc⟩

/-- A reader that has returned says what it has removed, if the copy into its
buffer was complete. -/
theorem removed_took {g : Ch4} {i : Nat} {l : Call} (h : CallOk g i l)
    (hwhole : l.whole = true) :
    (g.removedBy i).map Handed.text = l.tookText.toList ∨
      l.ended = false ∧ l.tookText = none ∧
        ((g.removedBy i).map Handed.text).length ≤ 1 := by
  cases l with
  | write w =>
      rw [h.1]
      exact Or.inl rfl
  | invalid code =>
      rw [h.2]
      exact Or.inl rfl
  | read r =>
      have hr := h.2
      by_cases hret : ∃ code, r.pc = .returned code
      · obtain ⟨code, hpc⟩ := hret
        rw [ReadOk, hpc] at hr
        rw [tookText_returned hpc]
        left
        rcases hr with ⟨hnil, -, hgave⟩ | ⟨n, t, htook, hans⟩
        · have hneg : code < 0 := by
            rcases hgave with ⟨-, hneg⟩ | ⟨hefault, -⟩
            · exact hneg
            · rw [hefault]
              decide
          rw [hnil, if_pos hneg]
          rfl
        · rcases hans with ⟨rfl, -, rfl⟩ | ⟨-, left, hpos, hleft⟩
          · rw [htook]
            rfl
          · have hzero : left = 0 := by
              simpa [Call.whole, hleft] using hwhole
            omega
      · have hpc : ∀ code, r.pc ≠ .returned code :=
          fun code h => hret ⟨code, h⟩
        obtain ⟨hended, htook⟩ := readResult_unreturned hpc
        rw [List.length_map]
        exact Or.inr ⟨hended, htook, hr.length_le hpc⟩

/-! ## The result -/

/-- The messages that a script's calls `made` have handed over, oldest
first. -/
def textsOf (made : List Nat) (log : List Handed) : List Bytes :=
  (sectionsOf Handed.call made log).map Handed.text

/-- A script has printed what its calls have handed over, except for a call
that is still in progress. -/
def UpTo (calls : List Call) (q : Proc Ioctl) (texts lines : List Bytes) :
    Prop :=
  ∃ pending, texts = lines ++ pending ∧ pending.length ≤ 1 ∧
    (q.free Call.ended calls = true → pending = [])

/-- The texts of the messages in the queue; `none` would be a node without a
message. -/
def queuedTexts (g : Ch4) : List (Option Bytes) :=
  g.msgListHead.map fun n => (g.contents n).map msgText

/-- The order of the queue explains what the scripts have printed. -/
structure Exchange (scripts : List (List Program)) (s : Shells) : Prop where
  put : ∀ (p : Nat) (q : Proc Ioctl) (script : List Program),
    s.procs[p]? = some q → scripts[p]? = some script →
    UpTo s.pool.calls q (textsOf q.made s.pool.shared.appended)
      (printed Program.put s.pool.calls script q.made)
  took : ∀ (p : Nat) (q : Proc Ioctl) (script : List Program),
    s.procs[p]? = some q → scripts[p]? = some script →
    UpTo s.pool.calls q (textsOf q.made s.pool.shared.removed)
      (printed Program.took s.pool.calls script q.made)
  fifo : s.pool.shared.removed.map Handed.text =
    (s.pool.shared.appended.map Handed.text).take
      s.pool.shared.removed.length
  /-- the others are still there -/
  waiting : queuedTexts s.pool.shared =
    ((s.pool.shared.appended.map Handed.text).drop
      s.pool.shared.removed.length).map some

/-- What one script has printed, from what each of its calls has recorded. -/
theorem upTo_of_recorded {scripts : List (List Program)} {s : Shells}
    {log : Ch4 → List Handed} {said : Program → Call → Option Bytes}
    {text : Call → Option Bytes}
    (hturns : TakesTurns ch4Ioctl Call.ended Call.kind log Handed.call
      (scripts.map (List.map Program.ioctl)) s)
    (hsaid : ∀ (p : Program) (l : Call), l.kind = (ch4Ioctl p.ioctl).kind →
      said p l = text l)
    (hcall : ∀ (i : Nat) (l : Call), s.pool.calls[i]? = some l →
      ((log s.pool.shared).filter fun x => x.call == i).map Handed.text =
          (text l).toList ∨
        l.ended = false ∧ text l = none ∧
          (((log s.pool.shared).filter fun x => x.call == i).map
            Handed.text).length ≤ 1)
    {p : Nat} {q : Proc Ioctl} {script : List Program}
    (hq : s.procs[p]? = some q) (hscript : scripts[p]? = some script) :
    UpTo s.pool.calls q (textsOf q.made (log s.pool.shared))
      (printed said s.pool.calls script q.made) := by
  have hfollows := hturns.faithful.follows p q _ hq
    (by rw [List.getElem?_map, hscript]; rfl)
  rw [printed_eq hsaid hfollows]
  have hturn : textsOf q.made (log s.pool.shared) = q.made.flatMap fun i =>
      ((log s.pool.shared).filter fun x => x.call == i).map Handed.text := by
    unfold textsOf
    rw [show sectionsOf Handed.call q.made (log s.pool.shared) = _ from
      hturns.inTurn p q hq, List.map_flatMap]
  rw [hturn]
  refine flatMap_pending hfollows.past fun i hi => ?_
  have hlt := hfollows.issued i hi
  have hl := List.getElem?_eq_getElem hlt
  rw [returned, hl, Option.any_some, Option.bind_some]
  exact hcall i _ hl

/-- The module's order, as texts. -/
theorem texts_append {g : Ch4} (h : g.InOrder) :
    (g.appended.map Handed.text).map some =
      (g.removed.map Handed.text).map some ++ queuedTexts g := by
  have hsnd := congrArg (List.map fun x : Nat × Option MsgSt =>
    x.2.map msgText) h
  simp only [List.map_append, List.map_map] at hsnd
  rw [List.map_map, List.map_map]
  exact hsnd

theorem texts_fifo {g : Ch4} (h : g.InOrder) :
    g.removed.map Handed.text =
      (g.appended.map Handed.text).take g.removed.length := by
  have htake := congrArg (List.take g.removed.length) (texts_append h)
  rw [List.take_left' (by rw [List.length_map, List.length_map]),
    ← List.map_take] at htake
  exact (List.map_injective_iff.mpr (fun _ _ h => Option.some.inj h) htake).symm

theorem texts_waiting {g : Ch4} (h : g.InOrder) :
    queuedTexts g =
      ((g.appended.map Handed.text).drop g.removed.length).map some := by
  rw [List.map_drop, texts_append h,
    List.drop_left' (by rw [List.length_map, List.length_map])]

theorem shells_ok {scripts : List (List Program)} {s : Shells}
    {as : List ShellStep} (hrun : run shellStep (started scripts) as = some s) :
    Annotated Ordered CallOk s.pool ∧
      TakesTurns ch4Ioctl Call.ended Call.kind Ch4.appended Handed.call
        (scripts.map (List.map Program.ioctl)) s ∧
      TakesTurns ch4Ioctl Call.ended Call.kind Ch4.removed Handed.call
        (scripts.map (List.map Program.ioctl)) s := by
  obtain ⟨mvs, hpool⟩ := pool_run hrun
  refine ⟨(reachable_ok hpool).2, ?_, ?_⟩
  · exact run_induct (fun _ _ _ h hst => h.step steady own_appended hst)
      (takesTurns_boot rfl) hrun
  · exact run_induct (fun _ _ _ h hst => h.step steady own_removed hst)
      (takesTurns_boot rfl) hrun

/-- A writer puts the first 127 bytes of its argument. -/
theorem msgText_writerMsg (argv1 : CStr) :
    msgText (writerMsg argv1) = argv1.bytes.take 127 := by
  show text (Ch3Queue.msgStr (Ch3Queue.writerMsg argv1)) = _
  rw [Ch3Queue.msgStr_writerMsg]
  exact text_strncpy 127 argv1

/-- In every run of any scripts in which no copy to a reader falls short, what
the readers print is what the writers print that came first: a script prints
what it hands over in its own order, the strings taken from the queue are the
oldest ones put into it, in their order, and the others are in the queue. -/
theorem scripts_exchange {scripts : List (List Program)} {s : Shells}
    {as : List ShellStep} (hrun : run shellStep (started scripts) as = some s)
    (hwhole : s.pool.calls.all Call.whole = true) :
    Exchange scripts s ∧
      ∀ argv1 l str, Program.put (.writer argv1) l = some str →
        str = argv1.bytes.take 127 := by
  obtain ⟨hok, happ, hrem⟩ := shells_ok hrun
  constructor
  · exact {
      put := fun p q script hq hscript =>
        upTo_of_recorded happ (fun _ _ => put_eq)
          (fun i l hl => appended_put (hok.call i l hl)) hq hscript
      took := fun p q script hq hscript =>
        upTo_of_recorded hrem (fun _ _ => took_eq)
          (fun i l hl => removed_took (hok.call i l hl)
            (List.all_eq_true.mp hwhole l (List.mem_of_getElem? hl)))
          hq hscript
      fifo := texts_fifo hok.shared.order
      waiting := texts_waiting hok.shared.order }
  · intro argv1 l str hput
    simp only [Program.put] at hput
    split at hput
    · cases hput
    · split at hput
      · cases hput
      · rw [Option.some.injEq] at hput
        rw [← hput]
        exact msgText_writerMsg argv1

/-- `"ping"` and `"pong"`. -/
def ping : CStr := ⟨ascii "ping", by decide⟩
def pong : CStr := ⟨ascii "pong", by decide⟩

/-- One script writes twice, another one reads. -/
def twoScripts : List (List Program) :=
  [[.writer ping, .writer pong], [.reader (Vector.replicate 132 0)]]

/-- The reader waits before the first message is there. -/
def waitingRun : List ShellStep :=
  List.flatten
    [ [.call 1, .advance 0 smooth, .advance 0 smooth, .call 0]
    , List.replicate 5 (.advance 1 smooth)
    , [.call 0]
    , List.replicate 4 (.advance 2 smooth)
    , List.replicate 5 (.advance 0 smooth)
    , [.advance 2 smooth] ]

theorem scripts_exchange_waitingRun :
    ∃ s, run shellStep (started twoScripts) waitingRun = some s ∧
      Exchange twoScripts s := by
  have hend : (run shellStep (started twoScripts) waitingRun).map
      (fun s => s.pool.calls.all Call.whole) = some true := by
    decide +kernel
  obtain ⟨s, hrun, hwhole⟩ := Option.map_eq_some_iff.mp hend
  exact ⟨s, hrun, (scripts_exchange hrun hwhole).1⟩

/-- The reader has printed the first of the two messages. -/
example :
    (run shellStep (started twoScripts) waitingRun).map
      (fun s => printed Program.took s.pool.calls
        [.reader (Vector.replicate 132 0)] [0]) = some [ascii "ping"] := by
  decide +kernel

end EmbeddedSystem.Labs.Ch4Queue
