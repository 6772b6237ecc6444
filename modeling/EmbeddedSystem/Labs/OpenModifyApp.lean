import EmbeddedSystem.Labs.ReadFile
import EmbeddedSystem.Verified.CallPool

/-!
# `open_modify.py` and the processes it traces

`open_modify.py` loads the probe of `open_modify.bpf.c` until it is
interrupted, while any number of processes run `read_file.c`.  A process that
runs one of the two programs is a call of a `CallPool`.

Taking the probe away does not bring `./test.txt` back
(`redirected_for_good`).
-/

set_option autoImplicit false

namespace EmbeddedSystem.Labs.OpenModify

open EmbeddedSystem.Verified
open EmbeddedSystem.Verified.CString
open EmbeddedSystem.Verified.Transition
open EmbeddedSystem.Verified.CallPool

/-! ## The system -/

/-- `open_modify.py` has not loaded the probe yet, waits in `trace_print`, or
is gone. -/
inductive Tracer where
  | load
  | tracing
  | gone
deriving DecidableEq, Repr

inductive Process where
  | readFile (p : ReadFile)
  | openModify (t : Tracer)

/-- A program that is started; `byte` is what the memory of the process
holds. -/
inductive Program where
  | readFile (frame : Frame) (byte : Nat → UInt8)
  | openModify

def launch : Program → Process
  | .readFile frame byte => .readFile ⟨frame, ⟨byte, []⟩, .declare, [], []⟩
  | .openModify => .openModify .load

/-- One step of `open_modify.py`. -/
def openModifyPy (g : Kernel) (o : Env) : Tracer → Option (Kernel × Tracer)
  | .load =>
      if o.loads then some ({ g with probes := g.probes + 1 }, .tracing)
      else some (g, .gone)
  | .tracing => some ({ g with probes := g.probes - 1 }, .gone)
  | .gone => none

def body (g : Kernel) (i : Nat) (l : Process) (o : Env) :
    Option (Kernel × Process) :=
  match l with
  | .readFile p =>
      (readFileMain g i p o).map fun r => (r.1, .readFile r.2)
  | .openModify t =>
      (openModifyPy g o t).map fun r => (r.1, .openModify r.2)

abbrev Conf := CallPool.Conf Kernel Process

abbrev Move := CallPool.Move Program Env

/-- One step of the system. -/
def step : Conf → Move → Option Conf := CallPool.step launch body

/-- Nothing runs yet. -/
def booted : Conf := CallPool.start ⟨0, []⟩

/-! ## All processes -/

theorem body_cases {g g' : Kernel} {i : Nat} {l l' : Process} {o : Env}
    (h : body g i l o = some (g', l')) :
    (∃ p p', l = .readFile p ∧ l' = .readFile p' ∧ MainStep g i p o g' p') ∨
      ∃ t t', l = .openModify t ∧ l' = .openModify t' ∧
        g'.trace = g.trace := by
  cases l with
  | readFile p =>
      obtain ⟨r, hr, hrest⟩ := Option.map_eq_some_iff.mp h
      cases hrest
      exact Or.inl ⟨p, r.2, rfl, rfl, readFileMain_step hr⟩
  | openModify t =>
      obtain ⟨r, hr, hrest⟩ := Option.map_eq_some_iff.mp h
      cases hrest
      refine Or.inr ⟨t, r.2, rfl, rfl, ?_⟩
      unfold openModifyPy at hr
      split at hr
      · split at hr <;> cases hr <;> rfl
      · cases hr
        rfl
      · cases hr

/-- What a move does to a process that runs `read_file.c`. -/
theorem process_step {c d : Conf} {mv : Move} {i : Nat} {p : ReadFile}
    (hp : c.calls[i]? = some (.readFile p)) (hst : step c mv = some d) :
    d.calls[i]? = some (.readFile p) ∨
      ∃ o p', mv = .advance i o ∧ d.calls[i]? = some (.readFile p') ∧
        MainStep c.shared i p o d.shared p' := by
  rcases step_cases hst with
    ⟨k, -, rfl⟩ | ⟨j, o, l, g, l', rfl, hl, hb, rfl⟩
  · exact Or.inl (lookup_append_old _ hp)
  · by_cases hij : j = i
    · subst hij
      rw [hl, Option.some.injEq] at hp
      subst hp
      rcases body_cases hb with
        ⟨p₁, p', heq, rfl, hmain⟩ | ⟨t, t', heq, -, -⟩
      · cases heq
        exact Or.inr ⟨o, p', rfl, lookup_set_self hl, hmain⟩
      · cases heq
    · exact Or.inl (lookup_set_ne l' hij hp)

/-- Where a process comes from. -/
theorem process_cases {c d : Conf} {mv : Move} {i : Nat} {q : ReadFile}
    (hq : d.calls[i]? = some (.readFile q)) (hst : step c mv = some d) :
    c.calls[i]? = some (.readFile q) ∨
      (∃ frame byte, q = ⟨frame, ⟨byte, []⟩, .declare, [], []⟩) ∨
      ∃ o p, mv = .advance i o ∧ c.calls[i]? = some (.readFile p) ∧
        MainStep c.shared i p o d.shared q := by
  rcases step_cases hst with
    ⟨k, -, rfl⟩ | ⟨j, o, l, g, l', rfl, hl, hb, rfl⟩
  · rcases lookup_append_cases hq with hold | ⟨-, hnew⟩
    · exact Or.inl hold
    · cases k with
      | readFile frame byte =>
          cases hnew
          exact Or.inr (Or.inl ⟨frame, byte, rfl⟩)
      | openModify => cases hnew
  · rcases lookup_set_cases hl hq with ⟨rfl, rfl⟩ | ⟨-, hold⟩
    · rcases body_cases hb with
        ⟨p, p', rfl, heq, hmain⟩ | ⟨t, t', -, heq, -⟩
      · cases heq
        exact Or.inr (Or.inr ⟨o, p, rfl, hl, hmain⟩)
      · cases heq
    · exact Or.inl hold

def AllProper (c : Conf) : Prop :=
  ∀ (i : Nat) (p : ReadFile), c.calls[i]? = some (.readFile p) → Proper p

theorem AllProper.step {c d : Conf} {mv : Move} (h : AllProper c)
    (hst : step c mv = some d) : AllProper d := by
  intro i q hq
  rcases process_cases hq hst with
    hold | ⟨frame, byte, rfl⟩ | ⟨o, p, -, hp, hmain⟩
  · exact h i q hold
  · exact launched_proper frame byte
  · exact (h i p hp).step hmain

theorem booted_proper : AllProper booted := by
  intro i p hp
  cases hp

/-- Every probe that matches stores the whole name. -/
def Whole (_ : Conf) : Move → Prop
  | .issue _ => True
  | .advance _ o => ∀ r ∈ o.runs, Stores r

instance (c : Conf) : ∀ mv, Decidable (Whole c mv)
  | .issue _ => inferInstanceAs (Decidable True)
  | .advance _ _ => inferInstanceAs (Decidable (∀ _ ∈ _, _))

/-- There is one line about every process whose name was written over, and
none about the others. -/
structure Once (c : Conf) : Prop where
  nodup : c.shared.trace.Nodup
  early : ∀ j ∈ c.shared.trace, j < c.calls.length
  fresh : ∀ i p, c.calls[i]? = some (.readFile p) → p.pc = .declare →
    i ∉ c.shared.trace
  told : ∀ i p, c.calls[i]? = some (.readFile p) → p.pc ≠ .declare →
    Told p.mem p.frame.filename i c.shared.trace

theorem booted_once : Once booted where
  nodup := List.nodup_nil
  early := nofun
  fresh := nofun
  told := nofun

theorem Told.congr {m : UserMem} {addr i : Nat} {trace trace' : List Nat}
    (h : Told m addr i trace) (hsame : i ∈ trace' ↔ i ∈ trace) :
    Told m addr i trace' := by
  unfold Told
  rw [hsame]
  exact h

theorem Once.step {c d : Conf} {mv : Move} (h : Once c) (hwhole : Whole c mv)
    (hst : step c mv = some d) : Once d := by
  rcases step_cases hst with
    ⟨k, rfl, rfl⟩ | ⟨j, o, l, g, l', rfl, hl, hb, rfl⟩
  · refine ⟨h.nodup, fun j hj => ?_, fun i p hp hpc => ?_, fun i p hp hpc => ?_⟩
    · have hlt := h.early j hj
      rw [List.length_append]
      omega
    · rcases lookup_append_cases hp with hold | ⟨rfl, -⟩
      · exact h.fresh i p hold hpc
      · exact fun hmem => Nat.lt_irrefl _ (h.early _ hmem)
    · rcases lookup_append_cases hp with hold | ⟨-, hnew⟩
      · exact h.told i p hold hpc
      · cases k with
        | readFile frame byte =>
            cases hnew
            exact absurd rfl hpc
        | openModify => cases hnew
  · have hlen : (c.calls.set j l').length = c.calls.length :=
      List.length_set
    rcases body_cases hb with
      ⟨p, p', rfl, rfl, hmain⟩ | ⟨t, t', rfl, rfl, hsame⟩
    · obtain ⟨hpast, htold, hnodup, hothers⟩ :=
        hmain.told h.nodup (h.fresh j p hl) (h.told j p hl) hwhole
      refine ⟨hnodup, fun i hi => ?_, fun i q hq hpc => ?_,
        fun i q hq hpc => ?_⟩
      · rw [hlen]
        by_cases hij : i = j
        · exact hij ▸ lookup_lt hl
        · exact h.early i ((hothers i hij).mp hi)
      · rcases lookup_set_cases hl hq with ⟨rfl, heq⟩ | ⟨hji, hold⟩
        · cases heq
          exact absurd hpc hpast
        · rw [hothers i (Ne.symm hji)]
          exact h.fresh i q hold hpc
      · rcases lookup_set_cases hl hq with ⟨rfl, heq⟩ | ⟨hji, hold⟩
        · cases heq
          exact htold
        · exact (h.told i q hold hpc).congr (hothers i (Ne.symm hji))
    · have hold : ∀ {i : Nat} {q : ReadFile},
          (c.calls.set j (.openModify t'))[i]? = some (.readFile q) →
            c.calls[i]? = some (.readFile q) := by
        intro i q hq
        rcases lookup_set_cases hl hq with ⟨-, heq⟩ | ⟨-, hold⟩
        · cases heq
        · exact hold
      refine ⟨?_, fun i hi => ?_, fun i q hq => ?_, fun i q hq => ?_⟩
      · rw [hsame]
        exact h.nodup
      · rw [hsame] at hi
        rw [hlen]
        exact h.early i hi
      · rw [hsame]
        exact h.fresh i q (hold hq)
      · rw [hsame]
        exact h.told i q (hold hq)

/-! ## From then on -/

/-- Process `i` has opened `before` and then only `n`, which is its name. -/
def Keeps (i : Nat) (before : List Bytes) (n : CStr) (c : Conf) : Prop :=
  ∃ p, c.calls[i]? = some (.readFile p) ∧ p.pc ≠ .declare ∧
    p.mem.StrAt p.frame.filename n ∧
    ∃ k, p.opened = before ++ List.replicate k n.bytes

/-- A name other than `./test.txt` stays. -/
theorem Keeps.step {c d : Conf} {mv : Move} {i : Nat} {before : List Bytes}
    {n : CStr} (h : Keeps i before n c) (hn : n ∈ names) (hne : n ≠ testTxt)
    (hst : step c mv = some d) : Keeps i before n d := by
  obtain ⟨p, hp, hpc, hat, k, hk⟩ := h
  rcases process_step hp hst with hsame | ⟨o, p', -, hp', hmain⟩
  · exact ⟨p, hsame, hpc, hat, k, hk⟩
  · obtain ⟨hpc', n', -, hat', hkeeps, hopened⟩ := hmain.name hpc hn hat
    have hsame : n' = n := hkeeps (Or.inl hne)
    subst hsame
    refine ⟨p', hp', hpc', hat', ?_⟩
    rcases hopened with heq | ⟨-, heq⟩
    · exact ⟨k, heq.trans hk⟩
    · refine ⟨k + 1, ?_⟩
      rw [heq, hk, List.append_assoc, List.replicate_succ']

theorem Keeps.run {c d : Conf} {mvs : List Move} {i : Nat}
    {before : List Bytes} {n : CStr} (h : Keeps i before n c)
    (hn : n ∈ names) (hne : n ≠ testTxt)
    (hrun : run OpenModify.step c mvs = some d) : Keeps i before n d :=
  run_induct (fun _ _ _ h hst => h.step hn hne hst) h hrun

theorem Keeps.opened {c : Conf} {i : Nat} {before : List Bytes} {n : CStr}
    {q : ReadFile} (h : Keeps i before n c)
    (hq : c.calls[i]? = some (.readFile q)) :
    ∃ k, q.opened = before ++ List.replicate k n.bytes := by
  obtain ⟨p, hp, -, -, hk⟩ := h
  rw [hq, Option.some.injEq, Process.readFile.injEq] at hp
  exact hp ▸ hk

/-- A process stays. -/
theorem process_run {c d : Conf} {mvs : List Move} {i : Nat}
    (h : ∃ p, c.calls[i]? = some (.readFile p))
    (hrun : run OpenModify.step c mvs = some d) :
    ∃ q, d.calls[i]? = some (.readFile q) := by
  refine run_induct (P := fun c => ∃ p, c.calls[i]? = some (.readFile p))
    (fun c mv d h hst => ?_) h hrun
  obtain ⟨p, hp⟩ := h
  rcases process_step hp hst with hsame | ⟨o, p', -, hp', -⟩
  · exact ⟨p, hsame⟩
  · exact ⟨p', hp'⟩

/-- With the probe attached, and if it can read the name, the name is
`./hack.txt` from then on. -/
theorem redirects {c d : Conf} {i : Nat} {p : ReadFile} {o : Env}
    {mvs : List Move} (h : Once c) (hp : c.calls[i]? = some (.readFile p))
    (hpc : p.pc = .openat) (hruns : ∀ r ∈ o.runs, Stores r)
    (hread : ∃ r ∈ o.runs, r.fault = false)
    (hrun : run OpenModify.step c (.advance i o :: mvs) = some d) :
    Keeps i p.opened hackTxt d := by
  obtain ⟨e, hst, hrest⟩ := run_cons_some hrun
  have htold := h.told i p hp (by rw [hpc]; exact nofun)
  have hredirect := (sysEnter_told (s := (p.mem, c.shared.trace)) htold
    h.nodup hruns).2.2.2 hread
  have hnow : Keeps i p.opened hackTxt e := by
    rcases step_cases hst with ⟨k, hmv, -⟩ | ⟨j, o', l, g, l', hmv, hl, hb, rfl⟩
    · cases hmv
    · cases hmv
      rw [hp, Option.some.injEq] at hl
      subst hl
      obtain ⟨⟨g', p'⟩, hr, hsome⟩ := Option.map_eq_some_iff.mp hb
      cases hsome
      unfold readFileMain at hr
      rw [hpc] at hr
      dsimp only at hr
      split at hr
      case isFalse => cases hr
      case isTrue =>
        cases hr
        exact ⟨_, lookup_set_self hp, nofun, hredirect, 0,
          (List.append_nil _).symm⟩
  exact hnow.run hackTxt_mem hackTxt_ne hrest

/-- What a process opens after a name that is not `./test.txt`. -/
theorem Proper.stays {c d : Conf} {mvs : List Move} {i : Nat} {p q : ReadFile}
    {name : Bytes} (h : Proper p) (hp : c.calls[i]? = some (.readFile p))
    (hname : name ∈ p.opened) (hne : name ≠ testTxt.bytes)
    (hrun : run OpenModify.step c mvs = some d)
    (hq : d.calls[i]? = some (.readFile q)) :
    ∃ k, q.opened = p.opened ++ List.replicate k name := by
  obtain ⟨hpc, n, hn, rfl⟩ := h.tells_other hname hne
  have hother : n ≠ testTxt := fun heq => hne (congrArg CStr.bytes heq)
  have hkeeps : Keeps i p.opened n c :=
    ⟨p, hp, hpc, hn.here, 0, (List.append_nil _).symm⟩
  exact (hkeeps.run hn.known hother hrun).opened hq

/-- Of two names there is a line about every process that opened the other
one. -/
theorem Once.opened {c : Conf} {i : Nat} {p : ReadFile} {name : Bytes}
    (h : Once c) (hp : c.calls[i]? = some (.readFile p)) (hproper : Proper p)
    (hname : name ∈ p.opened) :
    name = testTxt.bytes ∨ name = hackTxt.bytes ∧ i ∈ c.shared.trace := by
  by_cases hne : name = testTxt.bytes
  · exact Or.inl hne
  · obtain ⟨hpc, n, hn, rfl⟩ := hproper.tells_other hname hne
    rcases h.told i p hp hpc with ⟨htest, -⟩ | ⟨hhack, hmem⟩
    · rw [strAt_unique hn.here htest hn.known testTxt_mem]
      exact Or.inl rfl
    · rw [strAt_unique hn.here hhack hn.known hackTxt_mem]
      exact Or.inr ⟨rfl, hmem⟩

/-! ## The result -/

/-- A process that runs `read_file.c` opens `./test.txt` some number of times,
and then one other name for ever, whether the probe is still there or not.
What it prints are the names it has opened and at most 8 bytes of each file,
and nothing but its two arrays is ever written.  If the probes store whole
names, the other name is `./hack.txt`, it is opened from the first time on
that an attached probe can read the name, and the trace has one line about
the process. -/
theorem redirected_for_good {as bs : List Move} {c d : Conf}
    (has : run step booted as = some c) (hbs : run step c bs = some d)
    {i : Nat} {p : ReadFile} (hp : c.calls[i]? = some (.readFile p)) :
    ∃ q, d.calls[i]? = some (.readFile q) ∧
      (∃ n ∈ names, ∃ a b, q.opened =
        List.replicate a testTxt.bytes ++ List.replicate b n.bytes) ∧
      (∀ name ∈ p.opened, name ≠ testTxt.bytes →
        ∃ k, q.opened = p.opened ++ List.replicate k name) ∧
      q.lines.map Line.filename <+: q.opened ∧
      (∀ l ∈ q.lines, Shown l.ret l.buf) ∧
      (∀ a ∈ q.mem.stored, q.frame.Holds a) ∧
      (Along step Whole booted (as ++ bs) → d.shared.trace.Nodup ∧
        (∀ name ∈ q.opened, name = testTxt.bytes ∨
          name = hackTxt.bytes ∧ i ∈ d.shared.trace) ∧
        ∀ o cs, bs = .advance i o :: cs → p.pc = .openat →
          (∃ r ∈ o.runs, r.fault = false) →
          ∃ k, q.opened = p.opened ++ List.replicate k hackTxt.bytes) := by
  have hproper : AllProper c :=
    run_induct (fun _ _ _ h hst => AllProper.step h hst) booted_proper has
  have hproper' : AllProper d :=
    run_induct (fun _ _ _ h hst => AllProper.step h hst) hproper hbs
  obtain ⟨q, hq⟩ := process_run ⟨p, hp⟩ hbs
  have hends := hproper' i q hq
  refine ⟨q, hq, hends.opened_names, fun name hname hne => ?_,
    hends.lines_opened, hends.shown, hends.stored, fun hwhole => ?_⟩
  · exact (hproper i p hp).stays hp hname hne hbs hq
  · have honce : Once c :=
      run_induct_along (fun _ _ _ h hC hst => Once.step h hC hst) booted_once
        hwhole.of_append has
    have hrest := hwhole.rest has
    have honce' : Once d :=
      run_induct_along (fun _ _ _ h hC hst => Once.step h hC hst) honce hrest
        hbs
    refine ⟨honce'.nodup, fun name hname => honce'.opened hq hends hname,
      fun o cs heq hpc hread => ?_⟩
    subst heq
    exact (redirects honce hp hpc hrest.1 hread hbs).opened hq

/-- The program runs, and the probe is attached; `open` is what comes
next. -/
def attachRun : List Move :=
  [ .issue (.readFile ⟨4096, 8192, Or.inl (by decide)⟩ fun _ => 0)
  , .issue .openModify
  , .advance 0 ⟨[], 0, none, true⟩
  , .advance 1 ⟨[], 0, none, true⟩ ]

/-- One round with the probe, and one after it was taken away. -/
def redirectRun : List Move :=
  List.flatten
    [ [.advance 0 ⟨[⟨CBuffer.zeros 256, false, 0⟩], 0, none, true⟩]
    , List.replicate 5 (.advance 0 ⟨[], 3, some (ascii "hacked!\n"), true⟩)
    , [.advance 1 ⟨[], 0, none, true⟩]
    , List.replicate 3 (.advance 0 ⟨[], 3, some (ascii "hacked!\n"), true⟩) ]

/-- How many files a process has opened. -/
def rounds : Process → Nat
  | .readFile p => p.opened.length
  | .openModify _ => 0

theorem redirected_for_good_redirectRun :
    ∃ d q, run step booted (attachRun ++ redirectRun) = some d ∧
      d.shared = ⟨0, [0]⟩ ∧ d.calls[0]? = some (.readFile q) ∧
      q.opened = List.replicate 2 hackTxt.bytes := by
  have has : run step booted attachRun = some _ := rfl
  have hend : (run step booted (attachRun ++ redirectRun)).map
      (fun d => (d.shared, d.calls[0]?.map rounds)) =
        some (⟨0, [0]⟩, some 2) := by
    decide +kernel
  have hwhole : Along step Whole booted (attachRun ++ redirectRun) := by
    decide +kernel
  obtain ⟨d, hrun, hd⟩ := Option.map_eq_some_iff.mp hend
  rw [Prod.mk.injEq] at hd
  have hbs := hrun
  rw [run_append, has] at hbs
  obtain ⟨q, hq, -, -, -, -, -, hredirect⟩ :=
    redirected_for_good has hbs (i := 0) rfl
  obtain ⟨k, hk⟩ := (hredirect hwhole).2.2 _ _ rfl rfl
    ⟨_, List.mem_cons_self, rfl⟩
  have hlen : q.opened.length = 2 := by
    have htwo := hd.2
    rw [hq, Option.map_some, Option.some.injEq] at htwo
    exact htwo
  have hk2 : k = 2 := by
    rw [hk] at hlen
    simpa using hlen
  subst hk2
  exact ⟨d, q, hrun, hd.1, hq, hk⟩

end EmbeddedSystem.Labs.OpenModify
