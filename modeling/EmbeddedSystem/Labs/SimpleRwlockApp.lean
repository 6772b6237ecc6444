import EmbeddedSystem.Labs.ReadWriteApp
import EmbeddedSystem.Labs.SimpleRwlockVersions

/-!
# `simple_rwlock_app.c` on `simple_rwlock.c`

The log is the order of the sections under the lock.
-/

set_option autoImplicit false

namespace EmbeddedSystem.Labs.SimpleRwlock

open EmbeddedSystem.Verified
open EmbeddedSystem.Verified.Transition
open EmbeddedSystem.Verified.CallPool
open EmbeddedSystem.Verified.SectionLog
open EmbeddedSystem.Verified.Programs
open EmbeddedSystem.Labs.ReadWriteApp

/-! ## The driver -/

/-- The system call is over.  One that ends in an oops takes its process with
it. -/
def Call.returned : Call → Bool
  | .read r => r.pc = .returned
  | .write w => w.pc = .returned
  | .exit pc => pc = .returned
  | .invalid => true

def Call.purpose : Call → Purpose
  | .read _ => .read
  | .write w => .write w.arg
  | .exit _ => .other
  | .invalid => .other

def Section.purpose : Section → Purpose
  | .read _ => .read
  | .write _ arg => .write arg
  | .exit _ => .other

/-- The call has got the lock. -/
def Call.entered : Call → Bool
  | .read r => r.pc ≠ .lock
  | .write w => w.pc ≠ .lock
  | .exit pc => pc ≠ .lock
  | .invalid => false

def Call.printed : Call → Option (List (BitVec 64))
  | .read r => if r.pc = .returned then some r.printed else none
  | _ => none

def rwlockDriver :
    Driver Rw Call Request (Option (BitVec 64)) Section where
  enter := enter
  body := simpleRwlockStep
  returned := Call.returned
  purpose := Call.purpose
  log := Rw.sections
  who := Section.who
  what := Section.purpose
  entered := Call.entered
  printed := Call.printed
  read := .ioctl ioctlRead 0
  write := .ioctl ioctlWrite

abbrev System := Programs.System Rw Call Request

abbrev Action := Programs.Action (Option (BitVec 64))

/-- The module was loaded, and processes with these arguments start. -/
def launched (junk : BitVec 64) (args : List (Int × Int)) : System :=
  boot (simpleRwlockInit junk) (rwlockDriver.programs args)

theorem steady : Steady simpleRwlockStep Call.returned Call.purpose := by
  constructor
  · intro g i l mem g' l' h
    rcases simpleRwlockStep_cases h with
      ⟨r, r', rfl, rfl, -⟩ | ⟨w, w', rfl, rfl, hwrite⟩ | ⟨_, _, rfl, rfl, -⟩
    · rfl
    · cases hwrite <;> rfl
    · rfl
  · intro g i l mem hret
    cases l with
    | read r =>
        obtain ⟨old, printed, pc⟩ := r
        have hpc : pc = .returned := of_decide_eq_true hret
        subst hpc
        rfl
    | write w =>
        obtain ⟨arg, new, old, pc⟩ := w
        have hpc : pc = .returned := of_decide_eq_true hret
        subst hpc
        rfl
    | exit pc =>
        have hpc : pc = .returned := of_decide_eq_true hret
        subst hpc
        rfl
    | invalid => rfl

theorem logged :
    Logged enter simpleRwlockStep Call.purpose Rw.sections Section.who
      Section.purpose Call.entered := by
  constructor
  · intro k
    cases k with
    | exit => rfl
    | ioctl cmd arg =>
        unfold enter
        dsimp only
        split
        · rfl
        · split <;> rfl
  · intro g i l mem g' l' h
    rcases simpleRwlockStep_cases h with
      ⟨r, r', rfl, rfl, hread⟩ | ⟨w, w', rfl, rfl, hwrite⟩ |
        ⟨pc, pc', rfl, rfl, hexit⟩
    · cases hread with
      | lock hpc =>
          refine Or.inr ⟨.read i, ?_, rfl, rfl, rfl, rfl⟩
          simp [Call.entered, hpc]
      | _ => exact Or.inl ⟨rfl, by simp_all [Call.entered]⟩
    · cases hwrite with
      | lock hpc =>
          refine Or.inr ⟨.write i w.arg, ?_, rfl, rfl, rfl, rfl⟩
          simp [Call.entered, hpc]
      | _ => exact Or.inl ⟨rfl, by simp_all [Call.entered]⟩
    · cases hexit with
      | lock => exact Or.inr ⟨.exit i, rfl, rfl, rfl, rfl, rfl⟩
      | _ => exact Or.inl ⟨rfl, rfl⟩

theorem lawful : rwlockDriver.Lawful := by
  have hne : ioctlWrite ≠ ioctlRead := by decide
  refine
    { steady := steady
      logged := logged
      enter_read := rfl
      enter_write := fun arg => ?_
      entered := fun l hl hret => ?_ }
  · show (enter (.ioctl ioctlWrite arg)).purpose = .write arg
    rw [enter, if_neg hne, if_pos rfl]
    rfl
  · cases l with
    | read r =>
        have hpc : r.pc = .returned := of_decide_eq_true hret
        exact decide_eq_true (by rw [hpc]; decide)
    | write w =>
        have hpc : w.pc = .returned := of_decide_eq_true hret
        exact decide_eq_true (by rw [hpc]; decide)
    | exit pc => exact absurd rfl hl
    | invalid => exact absurd rfl hl

/-! ## What a read prints -/

/-- Without an exit the object holds the last argument. -/
theorem current_of_noExit {sections : List Section}
    (h : ∀ s ∈ sections, s.purpose ≠ .other) :
    current sections = some (rwlockDriver.lastArg sections) := by
  have hall : ∀ a, sections.foldl Section.update (some a) =
      some ((rwlockDriver.argsOf sections).getLast?.getD a) := by
    induction sections with
    | nil => exact fun a => rfl
    | cons s ss ih =>
        intro a
        have hrest := ih fun t ht => h t (List.mem_cons_of_mem s ht)
        cases s with
        | read who => exact hrest a
        | exit who => exact absurd rfl (h _ List.mem_cons_self)
        | write who arg =>
            show ss.foldl Section.update (some arg) =
              some ((arg :: rwlockDriver.argsOf ss).getLast?.getD a)
            rw [hrest arg, List.getLast?_cons, Option.getD_some]
  exact hall 0

/-- The order of the lock is the order in which the versions are read. -/
theorem readsLast {junk : BitVec 64} {args : List (Int × Int)}
    {as : List Action} {t : System}
    (hrun : run rwlockDriver.step (launched junk args) as = some t) :
    rwlockDriver.ReadsLast t := by
  intro i l vs hl hvs
  cases l with
  | write w => cases hvs
  | exit pc => cases hvs
  | invalid => cases hvs
  | read r =>
      have ht : rwlockDriver.Running args t := lawful.running rfl hrun
      obtain ⟨mvs, hmvs⟩ := pool_run hrun
      obtain ⟨-, -, hcall⟩ : Invariant t.pool :=
        run_induct invariant_step (invariant_loaded junk) hmvs
      by_cases hpc : r.pc = .returned
      · have hok : ReadOk t.pool.shared i r := hcall i _ hl
        unfold ReadOk at hok
        rw [hpc] at hok
        obtain ⟨before, hplaced, hprinted⟩ := hok
        obtain ⟨rest, hsplit⟩ := hplaced.front
        have hvs : (if r.pc = .returned then some r.printed else none) =
            some vs := hvs
        rw [if_pos hpc, Option.some.injEq] at hvs
        refine ⟨before, .read i, hplaced, rfl, ?_⟩
        -- nobody unloads the module
        have hnoExit : ∀ x ∈ before, x.purpose ≠ .other := by
          intro x hx
          have hmem : x ∈ t.pool.shared.sections := by
            rw [hsplit]
            exact List.mem_append_left _ hx
          obtain ⟨p, q, a, -, -, -, k, hk, hwhat⟩ := ht.section_of hmem
          exact fun hother =>
            lawful.purpose_main hk (hwhat.symm.trans hother)
        rw [← hvs, hprinted, current_of_noExit hnoExit]
        rfl
      · have hvs : (if r.pc = .returned then some r.printed else none) =
            some vs := hvs
        rw [if_neg hpc] at hvs
        cases hvs

/-! ## The result -/

/-- However many processes run the program, if one of them writes and the
others do not: every read prints the same value twice, 0 or one that was
written; the values that one process prints do not go back; and a read sees
every write that had returned when it was made. -/
theorem reads_follow_writes {junk : BitVec 64} {args : List (Int × Int)}
    {w : Nat} {n : Int} (hw : OneWriter args w n) (hn : n < 0x80000000)
    {as bs : List Action} {s t : System}
    (has : run rwlockDriver.step (launched junk args) as = some s)
    (hbs : run rwlockDriver.step s bs = some t) :
    InStep Call.printed Call.returned w s t := by
  have hrun : run rwlockDriver.step (launched junk args) (as ++ bs) =
      some t := by
    rw [run_append, has]
    exact hbs
  exact Driver.Running.inStep lawful hw hn (lawful.running rfl has)
    (lawful.running rfl hrun) hbs (readsLast hrun)

/-- A process that writes twice, and one that reads once. -/
def twoArgs : List (Int × Int) := [(opWrite, 2), (opRead, 1)]

/-- The first write, to its end. -/
def firstWrite : List Action :=
  .call 0 :: List.replicate 7 (.advance 0 (some 9))

/-- The second write is made, and the read gets the lock before it. -/
def readBetween : List Action :=
  [.call 0, .call 1] ++ List.replicate 6 (.advance 2 none)

theorem reads_follow_writes_readBetween :
    ∃ s t, run rwlockDriver.step (launched 5 twoArgs) firstWrite = some s ∧
      run rwlockDriver.step s readBetween = some t ∧
      Printed Call.printed t 2 1 ∧
      InStep Call.printed Call.returned 0 s t := by
  have hsome : (run rwlockDriver.step (launched 5 twoArgs)
      firstWrite).isSome = true := by
    decide +kernel
  obtain ⟨s, hs⟩ := Option.isSome_iff_exists.mp hsome
  have hboth : ((run rwlockDriver.step (launched 5 twoArgs)
      (firstWrite ++ readBetween)).bind fun t => t.pool.calls[2]?) =
      some (.read ⟨some 1, [1, 1], .returned⟩) := by
    decide +kernel
  rw [run_append, hs, Option.bind_some] at hboth
  obtain ⟨t, ht, hread⟩ := Option.bind_eq_some_iff.mp hboth
  have hw : OneWriter twoArgs 0 2 := by
    refine ⟨rfl, fun p a ha hp => ?_⟩
    match p, hp with
    | 1, _ =>
        cases ha
        decide
    | p + 2, _ => cases ha
  exact ⟨s, t, hs, ht, ⟨_, _, hread, rfl, rfl⟩,
    reads_follow_writes hw (by decide) hs ht⟩

end EmbeddedSystem.Labs.SimpleRwlock
