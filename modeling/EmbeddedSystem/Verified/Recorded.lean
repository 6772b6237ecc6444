import EmbeddedSystem.Verified.Programs

/-!
# Pools that record what happens

A body that keeps no log gets one here: `mark` says what a call adds to the
log when it takes its next step.  The log is only written, so recording does
not change what the calls do.  `step_recorded` takes a step of the programs
over to the recording pool and `project_step` takes it back.
-/

set_option autoImplicit false

namespace EmbeddedSystem.Verified.Recorded

open EmbeddedSystem.Verified.Transition
open EmbeddedSystem.Verified.CallPool
open EmbeddedSystem.Verified.Programs

variable {G L K O S : Type}

/-- The body with a log beside the shared state. -/
def record (body : G → Nat → L → O → Option (G × L))
    (mark : Nat → L → Option S) (g : G × List S) (i : Nat) (l : L) (o : O) :
    Option ((G × List S) × L) :=
  (body g.1 i l o).map fun x => ((x.1, g.2 ++ (mark i l).toList), x.2)

section Record

variable {enter : K → L} {body : G → Nat → L → O → Option (G × L)}
  {ended : L → Bool} {mark : Nat → L → Option S}

theorem record_some {g g' : G × List S} {i : Nat} {l l' : L} {o : O}
    (h : record body mark g i l o = some (g', l')) :
    body g.1 i l o = some (g'.1, l') ∧ g'.2 = g.2 ++ (mark i l).toList := by
  obtain ⟨⟨m, k⟩, hb, heq⟩ := Option.map_eq_some_iff.mp h
  cases heq
  exact ⟨hb, rfl⟩

/-- The pool without its log. -/
def project (c : Conf (G × List S) L) : Conf G L := ⟨c.shared.1, c.calls⟩

/-- A move of the recording pool is one of the pool. -/
theorem project_step {c d : Conf (G × List S) L} {mv : Move K O}
    (h : CallPool.step enter (record body mark) c mv = some d) :
    CallPool.step enter body (project c) mv = some (project d) := by
  rcases CallPool.step_cases h with
    ⟨k, rfl, rfl⟩ | ⟨i, o, l, g, l', rfl, hl, hb, rfl⟩
  · rfl
  · exact step_advance hl (record_some hb).1

/-- The system with a log beside its shared state. -/
def withLog (s : System G L K) (log : List S) : System (G × List S) L K :=
  ⟨⟨(s.pool.shared, log), s.pool.calls⟩, s.procs⟩

variable (mark)

/-- What the programs can do, they can do while it is recorded. -/
theorem step_recorded {s t : System G L K} {a : Action O}
    (h : Programs.step enter body ended s a = some t) (log : List S) :
    ∃ log', Programs.step enter (record body mark) ended (withLog s log) a =
      some (withLog t log') := by
  rcases Programs.step_cases h with
    ⟨p, k, todo, made, rfl, hp, hfree, rfl⟩ | ⟨i, o, l, g, l', rfl, hl, hb, rfl⟩
  · refine ⟨log, ?_⟩
    have hp' : (withLog s log).procs[p]? = some ⟨k :: todo, made⟩ := hp
    have hfree' : Proc.free ended (withLog s log).pool.calls
        ⟨k :: todo, made⟩ = true := hfree
    simp only [Programs.step, hp', hfree', if_true]
    rfl
  · refine ⟨log ++ (mark i l).toList, ?_⟩
    have hrec : record body mark (s.pool.shared, log) i l o =
        some ((g, log ++ (mark i l).toList), l') := by
      rw [record, hb]
      rfl
    have hl' : (withLog s log).pool.calls[i]? = some l := hl
    rw [Programs.step, step_advance hl' hrec]
    rfl

theorem run_recorded {s t : System G L K} {as : List (Action O)}
    (h : run (Programs.step enter body ended) s as = some t) (log : List S) :
    ∃ log', run (Programs.step enter (record body mark) ended)
      (withLog s log) as = some (withLog t log') := by
  induction as generalizing s log with
  | nil =>
      rw [run_nil, Option.some.injEq] at h
      exact ⟨log, by rw [h]; rfl⟩
  | cons a as ih =>
      obtain ⟨m, hm, hrest⟩ := run_cons_some h
      obtain ⟨log₁, hlog⟩ := step_recorded mark hm log
      obtain ⟨log₂, hlogs⟩ := ih hrest log₁
      exact ⟨log₂, by rw [run_cons, hlog]; exact hlogs⟩

end Record

end EmbeddedSystem.Verified.Recorded
