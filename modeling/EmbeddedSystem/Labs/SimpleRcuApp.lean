import EmbeddedSystem.Labs.ReadWriteApp
import EmbeddedSystem.Labs.SimpleRcuVersions
import EmbeddedSystem.Verified.Recorded

/-!
# `simple_rcu_app.c` on `simple_rcu.c`

The module has no lock, and what orders the versions are the publications and
the readers' loads of `my_data`.  They are recorded beside the module
(`Access`).  A single process writes its versions one after another, so the
writers do not overlap and the readers get the version published last
(`Dated.step`).
-/

set_option autoImplicit false

namespace EmbeddedSystem.Labs.SimpleRcu

open EmbeddedSystem.Verified
open EmbeddedSystem.Verified.Transition
open EmbeddedSystem.Verified.CallPool
open EmbeddedSystem.Verified.SectionLog
open EmbeddedSystem.Verified.Programs
open EmbeddedSystem.Verified.Recorded
open EmbeddedSystem.Labs.ReadWriteApp

/-! ## The driver -/

/-- An `rcu_dereference` or an `rcu_assign_pointer` of call `who`. -/
inductive Access where
  | read (who : Nat)
  | write (who : Nat) (arg : BitVec 64)
deriving DecidableEq, Repr

def Access.who : Access → Nat
  | .read who => who
  | .write who _ => who

def Access.purpose : Access → Purpose
  | .read _ => .read
  | .write _ arg => .write arg

/-- What the next step of call `i` does to `my_data`. -/
def mark (i : Nat) : Call → Option Access
  | .read r => if r.pc = .dereference then some (.read i) else none
  | .write w => if w.pc = .assign then some (.write i w.arg) else none
  | .invalid => none

/-- The system call is over.  One that ends in an oops takes its process with
it. -/
def Call.returned : Call → Bool
  | .read r => r.pc = .returned
  | .write w => w.pc = .returned
  | .invalid => true

def Call.purpose : Call → Purpose
  | .read _ => .read
  | .write w => .write w.arg
  | .invalid => .other

/-- The call has had its access to `my_data`. -/
def Call.accessed : Call → Bool
  | .read r => r.pc ≠ .lock && r.pc ≠ .dereference
  | .write w =>
      match w.pc with
      | .synchronize => true
      | .gracePeriod _ => true
      | .freeOld => true
      | .returned => true
      | _ => false
  | .invalid => false

def Call.printed : Call → Option (List (BitVec 64))
  | .read r => if r.pc = .returned then some r.printed else none
  | _ => none

def rcuDriver :
    Driver (Rcu × List Access) Call Ioctl (Option (BitVec 64)) Access where
  enter := simpleIoctl
  body := record simpleRcuStep mark
  returned := Call.returned
  purpose := Call.purpose
  log := Prod.snd
  who := Access.who
  what := Access.purpose
  entered := Call.accessed
  printed := Call.printed
  read := ⟨ioctlRead, 0⟩
  write := fun arg => ⟨ioctlWrite, arg⟩

abbrev System := Programs.System Rcu Call Ioctl

abbrev Action := Programs.Action (Option (BitVec 64))

def appStep : System → Action → Option System :=
  Programs.step simpleIoctl simpleRcuStep Call.returned

/-- The module was loaded, and processes with these arguments start. -/
def launched (junk : BitVec 64) (args : List (Int × Int)) : System :=
  boot (simpleRcuInit junk) (rcuDriver.programs args)

theorem steady : Steady (record simpleRcuStep mark) Call.returned
    Call.purpose := by
  constructor
  · rintro ⟨g, ss⟩ i l mem ⟨g', ss'⟩ l' h
    rcases simpleRcuStep_inv (record_some h).1 with
      ⟨r, r', rfl, rfl, -⟩ | ⟨w, w', rfl, rfl, hwrite, -⟩
    · rfl
    · cases hwrite <;> rfl
  · intro g i l mem hret
    cases l with
    | read r =>
        obtain ⟨old, printed, pc⟩ := r
        have hpc : pc = .returned := of_decide_eq_true hret
        subst hpc
        rfl
    | write w =>
        obtain ⟨arg, new, old, pc⟩ := w
        have hpc : pc = .returned := of_decide_eq_true hret
        subst hpc
        rfl
    | invalid => rfl

theorem logged :
    Logged simpleIoctl (record simpleRcuStep mark) Call.purpose
      (Prod.snd : Rcu × List Access → List Access) Access.who Access.purpose
      Call.accessed := by
  constructor
  · intro k
    unfold simpleIoctl
    split
    · rfl
    · split <;> rfl
  · rintro ⟨g, ss⟩ i l mem ⟨g', ss'⟩ l' h
    obtain ⟨hbody, hlog⟩ := record_some h
    rcases simpleRcuStep_inv hbody with
      ⟨r, r', rfl, rfl, hread⟩ | ⟨w, w', rfl, rfl, hwrite, -⟩
    · cases hread with
      | foundNull hpc =>
          refine Or.inr ⟨.read i, ?_, rfl, rfl, rfl, ?_⟩
          · simp [Call.accessed, hpc]
          · rw [hlog]
            simp [mark, hpc]
      | dereference p hpc =>
          refine Or.inr ⟨.read i, ?_, rfl, rfl, rfl, ?_⟩
          · simp [Call.accessed, hpc]
          · rw [hlog]
            simp [mark, hpc]
      | _ => exact Or.inl (by simp_all [Call.accessed, mark])
    · cases hwrite with
      | assign hpc =>
          refine Or.inr ⟨.write i w.arg, ?_, rfl, rfl, rfl, ?_⟩
          · simp [Call.accessed, hpc]
          · rw [hlog]
            simp [mark, hpc]
      | _ => exact Or.inl (by simp_all [Call.accessed, mark])

theorem lawful : rcuDriver.Lawful := by
  have hne : ioctlWrite ≠ ioctlRead := by decide
  refine
    { steady := steady
      logged := logged
      enter_read := rfl
      enter_write := fun arg => ?_
      entered := fun l hl hret => ?_ }
  · show (simpleIoctl ⟨ioctlWrite, arg⟩).purpose = .write arg
    rw [simpleIoctl, if_neg hne, if_pos rfl]
    rfl
  · cases l with
    | read r =>
        have hpc : r.pc = .returned := of_decide_eq_true hret
        simp [rcuDriver, Call.accessed, hpc]
    | write w =>
        have hpc : w.pc = .returned := of_decide_eq_true hret
        simp [rcuDriver, Call.accessed, hpc]
    | invalid => exact absurd rfl hl

/-! ## Every access finds the version published last -/

/-- What the next step of the call publishes. -/
def Call.publishes : Call → Option (BitVec 64)
  | .write w => if w.pc = .assign then some w.arg else none
  | _ => none

/-- A step changes the last argument by what it publishes. -/
theorem lastArg_mark (log : List Access) (i : Nat) (l : Call) :
    rcuDriver.lastArg (log ++ (mark i l).toList) =
      l.publishes.getD (rcuDriver.lastArg log) := by
  have hkeep : ∀ who, rcuDriver.lastArg (log ++ [.read who]) =
      rcuDriver.lastArg log := by
    intro who
    rw [Driver.lastArg, Driver.argsOf, List.filterMap_append]
    show ((log.filterMap fun x => (rcuDriver.what x).arg?) ++
      []).getLast?.getD 0 = _
    rw [List.append_nil]
    rfl
  cases l with
  | invalid => exact congrArg rcuDriver.lastArg (List.append_nil log)
  | read r =>
      by_cases hpc : r.pc = .dereference
      · simp only [mark, hpc, if_true, Option.toList_some]
        exact hkeep i
      · simp only [mark, hpc, if_false, Option.toList_none, List.append_nil]
        rfl
  | write w =>
      by_cases hpc : w.pc = .assign
      · simp only [mark, Call.publishes, hpc, if_true, Option.toList_some,
          Option.getD_some]
        rw [Driver.lastArg, Driver.argsOf, List.filterMap_append]
        show ((log.filterMap fun x => (rcuDriver.what x).arg?) ++
          [w.arg]).getLast?.getD 0 = w.arg
        rw [List.getLast?_concat, Option.getD_some]
      · simp only [mark, Call.publishes, hpc, if_false, Option.toList_none,
          List.append_nil, Option.getD_none]

/-- The current version is the one published last, and every reader that has
made its access carries the value that was the last one in front of it. -/
structure Dated (c : CallPool.Conf (Rcu × List Access) Call) : Prop where
  offers : Offers c.shared.1 (rcuDriver.lastArg c.shared.2)
  readers : ∀ i, (∀ r, c.calls[i]? = some (.read r) → r.Early) ∨
    ∃ before, Placed Access.who before (.read i) c.shared.2 ∧
      CarriedBy i (rcuDriver.lastArg before) (project c)

abbrev Recording := CallPool.Conf (Rcu × List Access) Call

theorem Dated.step {c d : Recording} {mv : Move} (h : Dated c)
    (ha : Apart (project c))
    (hin : InLog c.shared.2 Access.who Access.purpose Call.purpose
      Call.accessed c.calls)
    (hst : CallPool.step simpleIoctl (record simpleRcuStep mark) c mv =
      some d) : Dated d := by
  have hproject : SimpleRcu.step (project c) mv = some (project d) :=
    project_step hst
  have hoffers := Offers.step h.offers ha.owners ha.readers hproject
  rcases step_cases hst with
    ⟨k, rfl, rfl⟩ | ⟨j, mem, l, g, l', rfl, hl, hb, rfl⟩
  · refine ⟨hoffers, fun i => ?_⟩
    rcases h.readers i with hearly | ⟨before, hplaced, hcarried⟩
    · exact Or.inl (early_step hearly (fun o ho => by cases ho) hproject)
    · exact Or.inr ⟨before, hplaced, hcarried.step ha hproject⟩
  · have hlog := (record_some hb).2
    refine ⟨?_, fun i => ?_⟩
    · show Offers g.1 (rcuDriver.lastArg g.2)
      rw [hlog, lastArg_mark]
      have hl' : (project c).calls[j]? = some l := hl
      rw [publishes, hl'] at hoffers
      cases l with
      | write w => exact hoffers
      | read r => exact hoffers
      | invalid => exact hoffers
    · rcases h.readers i with hearly | ⟨before, hplaced, hcarried⟩
      · by_cases helse : Elsewhere i (project c) (.advance j mem)
        · exact Or.inl (early_step hearly helse hproject)
        · simp only [Elsewhere, Classical.not_forall,
            Classical.not_not] at helse
          obtain ⟨o, hmv, hder⟩ := helse
          cases hmv
          have hcarried :=
            carriedBy_of_dereferences h.offers hearly hder hproject
          obtain ⟨r, hr, hpc⟩ := hder
          have hr' : c.calls[j]? = some (.read r) := hr
          rw [hl, Option.some.injEq] at hr'
          subst hr'
          -- it has no access behind it
          have hsilent : Silent Access.who j c.shared.2 := by
            intro x hx hwho
            have hacc := hin.entered x hx
            rw [hwho, hl, Option.any_some] at hacc
            simp [Call.accessed, hpc] at hacc
          refine Or.inr ⟨c.shared.2, ?_, hcarried⟩
          show Placed Access.who c.shared.2 (.read j) g.2
          rw [hlog, mark, if_pos hpc]
          exact Silent.placed (s := Access.read j) hsilent
      · refine Or.inr ⟨before, ?_, hcarried.step ha hproject⟩
        show Placed Access.who before (.read i) g.2
        rw [hlog]
        cases hmark : mark j l with
        | none =>
            rw [Option.toList_none, List.append_nil]
            exact hplaced
        | some x =>
            rw [Option.toList_some]
            refine hplaced.concat ?_
            rintro hwho
            -- a reader makes its access once
            obtain ⟨r, hr, hprints, -⟩ := hcarried
            have hr' : c.calls[i]? = some (.read r) := hr
            have hj : x.who = j := by
              cases l with
              | invalid => cases hmark
              | read r' =>
                  simp only [mark] at hmark
                  split at hmark
                  · cases hmark
                    rfl
                  · cases hmark
              | write w =>
                  simp only [mark] at hmark
                  split at hmark
                  · cases hmark
                    rfl
                  · cases hmark
            have hij : j = i := hj.symm.trans hwho
            subst hij
            rw [hl, Option.some.injEq] at hr'
            subst hr'
            simp only [mark] at hmark
            split at hmark
            case isTrue hpc => simp [ReadCall.Prints, hpc] at hprints
            case isFalse => cases hmark

/-! ## Runs of the programs -/

abbrev Recorder := Programs.System (Rcu × List Access) Call Ioctl

/-- What holds in every run of the programs. -/
structure Served (args : List (Int × Int)) (s : Recorder) : Prop where
  running : rcuDriver.Running args s
  apart : Apart (project s.pool)
  dated : Dated s.pool

theorem launched_served (junk : BitVec 64) (args : List (Int × Int)) :
    Served args (withLog (launched junk args) []) :=
  { running := programmed_boot rfl
    apart := loaded_apart junk
    dated :=
      { offers := loaded_offers junk
        readers := fun i => Or.inl fun r hr => by cases hr } }

/-- When the writer makes a write, there is no other. -/
theorem Served.writesApart {args : List (Int × Int)} {w : Nat} {n : Int}
    (hw : OneWriter args w n) {s : Recorder} (h : Served args s) {p : Nat}
    {k : Ioctl} {todo : List Ioctl} {made : List Nat}
    (hp : s.procs[p]? = some ⟨k :: todo, made⟩)
    (hfree : Proc.free Call.returned s.pool.calls ⟨k :: todo, made⟩ = true) :
    WritesApart (project s.pool) (.issue k) := by
  have hlt := lookup_lt hp
  rw [h.running.faithful.length, Driver.programs, List.length_map] at hlt
  have ha : args[p]? = some args[p] := List.getElem?_eq_getElem hlt
  by_cases hpw : p = w
  · subst hpw
    apply Or.inr
    apply total_eq_zero
    intro i l hl
    have hl' : s.pool.calls[i]? = some l := hl
    cases l with
    | read r => rfl
    | invalid => rfl
    | write u =>
        have hret : Call.returned (.write u) = true :=
          h.running.writes_returned lawful hw hp hfree hl' rfl
        have hpc : u.pc = .returned := of_decide_eq_true hret
        simp [writing, Call.ended, hpc]
  · apply Or.inl
    have hfollows := h.running.faithful.follows p _ _ hp (lookup_map
      (fun a : Int × Int => main rcuDriver.read rcuDriver.write a.1 a.2) ha)
    have hk : k ∈ main rcuDriver.read rcuDriver.write args[p].1 args[p].2 := by
      apply List.mem_of_mem_drop
      rw [hfollows.todo]
      exact List.mem_cons_self
    have hread := lawful.purpose_read (hw.others p _ ha hpw) hk
    have hread : (simpleIoctl k).purpose = .read := hread
    cases hcall : simpleIoctl k with
    | read r => rfl
    | invalid => rfl
    | write u =>
        rw [hcall] at hread
        cases hread

theorem Served.step {args : List (Int × Int)} {w : Nat} {n : Int}
    (hw : OneWriter args w n) {s t : Recorder} {a : Action}
    (h : Served args s) (hst : rcuDriver.step s a = some t) :
    Served args t := by
  have hrunning : rcuDriver.Running args t :=
    Programmed.step lawful.steady lawful.logged h.running hst
  rcases Programs.step_cases hst with
    ⟨p, k, todo, made, rfl, hp, hfree, rfl⟩ |
      ⟨i, mem, l, g, l', rfl, hl, hb, rfl⟩
  · have hpool : CallPool.step simpleIoctl (record simpleRcuStep mark) s.pool
        (.issue k : Move) =
        some ⟨s.pool.shared, s.pool.calls ++ [simpleIoctl k]⟩ := rfl
    exact
      { running := hrunning
        apart := h.apart.step (h.writesApart hw hp hfree) (project_step hpool)
        dated := h.dated.step h.apart h.running.inLog hpool }
  · have hpool : CallPool.step simpleIoctl (record simpleRcuStep mark) s.pool
        (.advance i mem) = some ⟨g, s.pool.calls.set i l'⟩ :=
      step_advance hl hb
    have hapart : WritesApart (project s.pool) (.advance i mem) := trivial
    exact
      { running := hrunning
        apart := h.apart.step hapart (project_step hpool)
        dated := h.dated.step h.apart h.running.inLog hpool }

/-- A read that has returned printed the value it carries. -/
theorem Served.readsLast {args : List (Int × Int)} {s : Recorder}
    (h : Served args s) : rcuDriver.ReadsLast s := by
  intro i l vs hl hvs
  cases l with
  | write u => cases hvs
  | invalid => cases hvs
  | read r =>
      have hvs : (if r.pc = .returned then some r.printed else none) =
          some vs := hvs
      split at hvs
      case isFalse => cases hvs
      case isTrue hpc =>
        rw [Option.some.injEq] at hvs
        rcases h.dated.readers i with hearly | ⟨before, hplaced, r', hr', hc⟩
        · have hbefore := (hearly r hl).1
          rw [hpc] at hbefore
          rcases hbefore with h | h <;> cases h
        · have hr' : s.pool.calls[i]? = some (.read r') := hr'
          rw [hl, Option.some.injEq, Call.read.injEq] at hr'
          subst hr'
          have hprints := hc.prints
          simp only [ReadCall.Prints, hpc] at hprints
          exact ⟨before, .read i, hplaced, rfl, hvs.symm.trans hprints⟩

/-! ## The result -/

/-- However many processes run the program, if one of them writes and the
others do not: no access meets a version that was freed; every read prints the
same value twice, 0 or one that was written; the values that one process
prints do not go back; and a read sees every write that had returned when it
was made. -/
theorem readers_follow_writer {junk : BitVec 64} {args : List (Int × Int)}
    {w : Nat} {n : Int} (hw : OneWriter args w n) (hn : n < 0x80000000)
    {as bs : List Action} {s t : System}
    (has : run appStep (launched junk args) as = some s)
    (hbs : run appStep s bs = some t) :
    t.pool.shared.slab.stale = 0 ∧
      InStep Call.printed Call.returned w s t := by
  obtain ⟨log, has'⟩ := run_recorded mark has []
  obtain ⟨log', hbs'⟩ := run_recorded mark hbs log
  have hs : Served args (withLog s log) :=
    run_induct (P := Served args) (fun _ _ _ h hst => h.step hw hst)
      (launched_served junk args) has'
  have ht : Served args (withLog t log') :=
    run_induct (P := Served args) (fun _ _ _ h hst => h.step hw hst)
      hs hbs'
  have hstep := Driver.Running.inStep lawful hw hn hs.running ht.running hbs'
    ht.readsLast
  exact ⟨ht.apart.readers.neverStale, hstep.answered, hstep.forward,
    hstep.upToDate⟩

/-- A process that writes twice, and one that reads twice. -/
def twoArgs : List (Int × Int) := [(opWrite, 2), (opRead, 2)]

/-- The first write is made, and returns after a read that began before its
publication. -/
def readDuringWrite : List Action :=
  List.flatten
    [ [.call 0, .call 1]
    , List.replicate 2 (.advance 1 none)
    , List.replicate 5 (.advance 0 (some 9))
    , List.replicate 3 (.advance 1 none)
    , List.replicate 2 (.advance 0 none) ]

/-- The second read, while the second write has not published yet. -/
def readBetween : List Action :=
  List.flatten
    [ [.call 0, .call 1]
    , List.replicate 3 (.advance 2 (some 9))
    , List.replicate 5 (.advance 3 none) ]

theorem readers_follow_writer_readBetween :
    ∃ s t, run appStep (launched 5 twoArgs) readDuringWrite = some s ∧
      run appStep s readBetween = some t ∧ Printed Call.printed t 1 0 ∧
      Printed Call.printed t 3 1 ∧ t.pool.shared.slab.stale = 0 ∧
      InStep Call.printed Call.returned 0 s t := by
  have hsome : (run appStep (launched 5 twoArgs)
      readDuringWrite).isSome = true := by
    decide +kernel
  obtain ⟨s, hs⟩ := Option.isSome_iff_exists.mp hsome
  have hboth : ((run appStep (launched 5 twoArgs)
      (readDuringWrite ++ readBetween)).map fun t =>
        (t.pool.calls[1]?, t.pool.calls[3]?)) =
      some (some (.read ⟨some 0, [0, 0], .returned⟩),
        some (.read ⟨some 1, [1, 1], .returned⟩)) := by
    decide +kernel
  rw [run_append, hs, Option.bind_some] at hboth
  obtain ⟨t, ht, hreads⟩ := Option.map_eq_some_iff.mp hboth
  rw [Prod.mk.injEq] at hreads
  have hw : OneWriter twoArgs 0 2 := by
    refine ⟨rfl, fun p a ha hp => ?_⟩
    match p, hp with
    | 1, _ =>
        cases ha
        decide
    | p + 2, _ => cases ha
  exact ⟨s, t, hs, ht, ⟨_, _, hreads.1, rfl, rfl⟩, ⟨_, _, hreads.2, rfl, rfl⟩,
    readers_follow_writer hw (by decide) hs ht⟩

end EmbeddedSystem.Labs.SimpleRcu
