import EmbeddedSystem.Verified.CallPool
import EmbeddedSystem.Verified.SectionLog
import Mathlib.Data.List.Basic

/-!
# Programs that make their calls one after another

A process has a list of requests.  It makes the next one when the call it made
last has returned, so at most one of its calls is in progress, while the calls
of different processes interleave as they like.  A `System` is a pool of calls
together with the processes that issue them.

Every move of a system is a move of its pool, so what holds in every run of
the pool holds here (`pool_run`).  What the programs add is the order:
`Follows` relates the calls of a process to its program, and `program_order`
is what remains of the program in a log of sections, a first part of it, in
its own order, which lacks at most the call in progress.
-/

set_option autoImplicit false

namespace EmbeddedSystem.Verified.Programs

open EmbeddedSystem.Verified.Transition
open EmbeddedSystem.Verified.CallPool

variable {G L K O J S : Type}

/-- What a process has still to request, and the numbers of the calls it has
made, oldest first. -/
structure Proc (K : Type) where
  todo : List K
  made : List Nat
deriving DecidableEq, Repr

structure System (G L K : Type) where
  pool : Conf G L
  procs : List (Proc K)
deriving DecidableEq, Repr

/-- Process `p` makes its next call, or call `i` takes a step. -/
inductive Action (O : Type) where
  | call (p : Nat)
  | advance (i : Nat) (o : O)
deriving DecidableEq, Repr

/-- Call `i` has returned. -/
def returned (ended : L → Bool) (calls : List L) (i : Nat) : Bool :=
  (calls[i]?).any ended

/-- The process waits for no call. -/
def Proc.free (ended : L → Bool) (calls : List L) (q : Proc K) : Bool :=
  q.made.getLast?.all (returned ended calls)

/-- How many of its calls have returned. -/
def Proc.completed (ended : L → Bool) (calls : List L) (q : Proc K) : Nat :=
  q.made.countP (returned ended calls)

def step (enter : K → L) (body : G → Nat → L → O → Option (G × L))
    (ended : L → Bool) (s : System G L K) : Action O → Option (System G L K)
  | .call p =>
      match s.procs[p]? with
      | none => none
      | some ⟨[], _⟩ => none
      | some ⟨k :: todo, made⟩ =>
          if Proc.free ended s.pool.calls ⟨k :: todo, made⟩ then
            some ⟨⟨s.pool.shared, s.pool.calls ++ [enter k]⟩,
              s.procs.set p ⟨todo, made ++ [s.pool.calls.length]⟩⟩
          else none
  | .advance i o =>
      (CallPool.step enter body s.pool (.advance i o)).map (⟨·, s.procs⟩)

/-- Every process is at the start of its program. -/
def boot (g : G) (programs : List (List K)) : System G L K :=
  ⟨CallPool.start g, programs.map fun program => ⟨program, []⟩⟩

/-! ## A system is a pool -/

section Step

variable {enter : K → L} {body : G → Nat → L → O → Option (G × L)}
  {ended : L → Bool}

/-- Everything one move can do. -/
theorem step_cases {s t : System G L K} {a : Action O}
    (h : step enter body ended s a = some t) :
    (∃ p k todo made, a = .call p ∧ s.procs[p]? = some ⟨k :: todo, made⟩ ∧
        Proc.free ended s.pool.calls ⟨k :: todo, made⟩ = true ∧
        t = ⟨⟨s.pool.shared, s.pool.calls ++ [enter k]⟩,
          s.procs.set p ⟨todo, made ++ [s.pool.calls.length]⟩⟩) ∨
      ∃ i o l g l', a = .advance i o ∧ s.pool.calls[i]? = some l ∧
        body s.pool.shared i l o = some (g, l') ∧
        t = ⟨⟨g, s.pool.calls.set i l'⟩, s.procs⟩ := by
  cases a with
  | call p =>
      simp only [step] at h
      split at h
      · cases h
      · cases h
      case h_3 k todo made hp =>
        split at h
        case isFalse => cases h
        case isTrue hfree =>
          rw [Option.some.injEq] at h
          exact Or.inl ⟨p, k, todo, made, rfl, hp, hfree, h.symm⟩
  | advance i o =>
      obtain ⟨d, hd, ht⟩ := Option.map_eq_some_iff.mp h
      rcases CallPool.step_cases hd with
        ⟨k, hmv, -⟩ | ⟨i', o', l, g, l', hmv, hl, hb, hpool⟩
      · cases hmv
      · cases hmv
        refine Or.inr ⟨i, o, l, g, l', rfl, hl, hb, ?_⟩
        rw [← ht, hpool]

/-- A move of the system is a move of its pool. -/
theorem pool_step {s t : System G L K} {a : Action O}
    (h : step enter body ended s a = some t) :
    ∃ mv, CallPool.step enter body s.pool mv = some t.pool := by
  rcases step_cases h with
    ⟨p, k, todo, made, -, -, -, ht⟩ | ⟨i, o, l, g, l', -, hl, hb, ht⟩
  · exact ⟨.issue k, by rw [ht]; rfl⟩
  · exact ⟨.advance i o, by rw [ht]; exact step_advance hl hb⟩

/-- A run of the system is a run of its pool, with its invariants. -/
theorem pool_run {s t : System G L K} {as : List (Action O)}
    (hrun : run (step enter body ended) s as = some t) :
    ∃ mvs, run (CallPool.step enter body) s.pool mvs = some t.pool := by
  induction as generalizing s with
  | nil =>
      rw [run_nil, Option.some.injEq] at hrun
      exact ⟨[], by rw [hrun]; rfl⟩
  | cons a as ih =>
      obtain ⟨m, hm, hrest⟩ := run_cons_some hrun
      obtain ⟨mv, hmv⟩ := pool_step hm
      obtain ⟨mvs, hmvs⟩ := ih hrest
      exact ⟨mv :: mvs, by rw [run_cons, hmv]; exact hmvs⟩

end Step

/-! ## The calls of a process -/

/-- `kind` tells from a call what was requested; no step changes it, and a
call that has returned takes no step. -/
structure Steady (body : G → Nat → L → O → Option (G × L)) (ended : L → Bool)
    (kind : L → J) : Prop where
  kind : ∀ g i l o g' l', body g i l o = some (g', l') → kind l' = kind l
  ended : ∀ g i l o, ended l = true → body g i l o = none

/-- The calls of a process are a first part of its program, made one after
another. -/
structure Follows (enter : K → L) (ended : L → Bool) (kind : L → J)
    (calls : List L) (program : List K) (q : Proc K) : Prop where
  todo : program.drop q.made.length = q.todo
  length : q.made.length ≤ program.length
  sorted : q.made.Pairwise (· < ·)
  issued : ∀ i ∈ q.made, i < calls.length
  kinds : q.made.map (fun i => (calls[i]?).map kind) =
    (program.take q.made.length).map fun k => some (kind (enter k))
  past : ∀ i ∈ q.made.dropLast, returned ended calls i = true

section Follows

variable {enter : K → L} {body : G → Nat → L → O → Option (G × L)}
  {ended : L → Bool} {kind : L → J}

theorem follows_boot (calls : List L) (program : List K) :
    Follows enter ended kind calls program ⟨program, []⟩ :=
  { todo := rfl
    length := Nat.zero_le _
    sorted := .nil
    issued := fun i hi => by cases hi
    kinds := rfl
    past := fun i hi => by cases hi }

/-- What is known of a call's kind and return survives new calls. -/
theorem Follows.issue {calls : List L} {program : List K} {q : Proc K}
    (h : Follows enter ended kind calls program q) (l : L) :
    Follows enter ended kind (calls ++ [l]) program q := by
  have hold : ∀ i, i < calls.length → (calls ++ [l])[i]? = calls[i]? :=
    fun i hi => List.getElem?_append_left hi
  refine
    { todo := h.todo
      length := h.length
      sorted := h.sorted
      issued := fun i hi => ?_
      kinds := ?_
      past := fun i hi => ?_ }
  · have := h.issued i hi
    rw [List.length_append]
    omega
  · rw [← h.kinds]
    apply List.map_congr_left
    intro i hi
    rw [hold i (h.issued i hi)]
  · have hlt := h.issued i (List.dropLast_subset _ hi)
    rw [returned, hold i hlt]
    exact h.past i hi

/-- The next call. -/
theorem Follows.call {calls : List L} {program todo : List K} {k : K}
    {made : List Nat}
    (h : Follows enter ended kind calls program ⟨k :: todo, made⟩)
    (hfree : Proc.free ended calls ⟨k :: todo, made⟩ = true) :
    Follows enter ended kind (calls ++ [enter k]) program
      ⟨todo, made ++ [calls.length]⟩ := by
  have hdrop : program.drop made.length = k :: todo := h.todo
  have hlt : made.length < program.length := by
    have hlen := congrArg List.length hdrop
    rw [List.length_drop, List.length_cons] at hlen
    omega
  have hk : program[made.length]? = some k := by
    have hhead := congrArg List.head? hdrop
    rw [List.head?_drop] at hhead
    exact hhead
  have hissue := h.issue (enter k)
  refine
    { todo := ?_
      length := ?_
      sorted := ?_
      issued := ?_
      kinds := ?_
      past := ?_ }
  · show program.drop (made ++ [calls.length]).length = todo
    rw [List.length_append, List.length_singleton, ← List.drop_drop, hdrop]
    rfl
  · rw [List.length_append, List.length_singleton]
    exact hlt
  · refine List.pairwise_append.mpr
      ⟨h.sorted, List.pairwise_singleton _ _, fun i hi j hj => ?_⟩
    rw [List.mem_singleton.mp hj]
    exact h.issued i hi
  · intro i hi
    rcases List.mem_append.mp hi with hold | hnew
    · exact hissue.issued i hold
    · rw [List.mem_singleton.mp hnew, List.length_append,
        List.length_singleton]
      exact Nat.lt_succ_self _
  · show (made ++ [calls.length]).map _ =
      (program.take (made ++ [calls.length]).length).map _
    rw [List.length_append, List.length_singleton, List.take_add_one, hk,
      List.map_append, List.map_append, hissue.kinds]
    simp
  · rw [List.dropLast_concat]
    intro i hi
    rcases List.eq_nil_or_concat made with hnil | ⟨front, last, hmade⟩
    · rw [hnil] at hi
      cases hi
    · subst hmade
      rw [List.concat_eq_append] at *
      rcases List.mem_append.mp hi with hfront | hlast
      · exact hissue.past i (by
          show i ∈ (front ++ [last]).dropLast
          rw [List.dropLast_concat]
          exact hfront)
      · rw [List.mem_singleton.mp hlast, returned,
          List.getElem?_append_left (h.issued last (by simp))]
        simpa [Proc.free, returned] using hfree

/-- A step of any call. -/
theorem Follows.advance (hs : Steady body ended kind) {calls : List L}
    {program : List K} {q : Proc K} {g g' : G} {i : Nat} {l l' : L} {o : O}
    (h : Follows enter ended kind calls program q) (hl : calls[i]? = some l)
    (hb : body g i l o = some (g', l')) :
    Follows enter ended kind (calls.set i l') program q := by
  have hkind : ∀ j : Nat,
      ((calls.set i l')[j]?).map kind = (calls[j]?).map kind := by
    intro j
    by_cases hij : i = j
    · subst hij
      rw [lookup_set_self hl, hl, Option.map_some, Option.map_some,
        hs.kind g i l o g' l' hb]
    · rw [List.getElem?_set_ne hij]
  refine
    { todo := h.todo
      length := h.length
      sorted := h.sorted
      issued := fun j hj => ?_
      kinds := ?_
      past := fun j hj => ?_ }
  · rw [List.length_set]
    exact h.issued j hj
  · rw [← h.kinds]
    exact List.map_congr_left fun j _ => hkind j
  · have hret := h.past j hj
    by_cases hij : i = j
    · subst hij
      rw [returned, hl, Option.any_some] at hret
      rw [hs.ended g i l o hret] at hb
      cases hb
    · rw [returned, List.getElem?_set_ne hij]
      exact hret

/-- The kind of the call with index `n` in the process is the one of the
request with that index in the program. -/
theorem Follows.kind_of {calls : List L} {program : List K} {q : Proc K}
    (h : Follows enter ended kind calls program q) {i : Nat}
    (hi : i ∈ q.made) :
    ∃ k ∈ program, ∃ l, calls[i]? = some l ∧ kind l = kind (enter k) := by
  have hmem : (calls[i]?).map kind ∈
      q.made.map fun i => (calls[i]?).map kind :=
    List.mem_map_of_mem hi
  rw [h.kinds] at hmem
  obtain ⟨k, hk, heq⟩ := List.mem_map.mp hmem
  obtain ⟨l, hl, hkind⟩ := Option.map_eq_some_iff.mp heq.symm
  exact ⟨k, List.mem_of_mem_take hk, l, hl, hkind⟩

/-- The call that takes a step is the last one of its process. -/
theorem Follows.last_of_step (hs : Steady body ended kind) {calls : List L}
    {program : List K} {q : Proc K} {g g' : G} {i : Nat} {l l' : L} {o : O}
    (h : Follows enter ended kind calls program q) (hl : calls[i]? = some l)
    (hb : body g i l o = some (g', l')) (hmade : i ∈ q.made) :
    ∃ front, q.made = front ++ [i] ∧ i ∉ front := by
  have hpast : i ∉ q.made.dropLast := by
    intro hmem
    have hret := h.past i hmem
    rw [returned, hl, Option.any_some] at hret
    rw [hs.ended g i l o hret] at hb
    cases hb
  rcases List.eq_nil_or_concat q.made with hnil | ⟨front, last, hc⟩
  · rw [hnil] at hmade
    cases hmade
  · rw [List.concat_eq_append] at hc
    rw [hc, List.dropLast_concat] at hpast
    rw [hc] at hmade
    rcases List.mem_append.mp hmade with hfront | hnew
    · exact absurd hfront hpast
    · rw [List.mem_singleton.mp hnew] at hpast ⊢
      exact ⟨front, hc, hpast⟩

end Follows

/-! ## The whole system -/

/-- Every process follows its program, and every call was made by one. -/
structure Faithful (enter : K → L) (ended : L → Bool) (kind : L → J)
    (programs : List (List K)) (s : System G L K) : Prop where
  length : s.procs.length = programs.length
  follows : ∀ (p : Nat) (q : Proc K) (program : List K),
    s.procs[p]? = some q → programs[p]? = some program →
    Follows enter ended kind s.pool.calls program q
  maker : ∀ i, i < s.pool.calls.length →
    ∃ (p : Nat) (q : Proc K), s.procs[p]? = some q ∧ i ∈ q.made

section Faithful

variable {enter : K → L} {body : G → Nat → L → O → Option (G × L)}
  {ended : L → Bool} {kind : L → J} {programs : List (List K)}

theorem faithful_boot (g : G) :
    Faithful enter ended kind programs (boot g programs : System G L K) := by
  refine
    { length := List.length_map _
      follows := fun p q program hq hprogram => ?_
      maker := fun i hi => absurd hi (Nat.not_lt_zero i) }
  rw [boot, List.getElem?_map, hprogram, Option.map_some,
    Option.some.injEq] at hq
  rw [← hq]
  exact follows_boot _ program

theorem Faithful.step (hs : Steady body ended kind) {s t : System G L K}
    {a : Action O} (h : Faithful enter ended kind programs s)
    (hst : Programs.step enter body ended s a = some t) :
    Faithful enter ended kind programs t := by
  rcases step_cases hst with
    ⟨p, k, todo, made, -, hp, hfree, rfl⟩ | ⟨i, o, l, g, l', -, hl, hb, rfl⟩
  · refine
      { length := (List.length_set).trans h.length
        follows := fun p' q program hq hprogram => ?_
        maker := fun i hi => ?_ }
    · rcases lookup_set_cases hp hq with ⟨rfl, rfl⟩ | ⟨-, hold⟩
      · exact (h.follows _ _ program hp hprogram).call hfree
      · exact (h.follows p' q program hold hprogram).issue _
    · by_cases hnew : i = s.pool.calls.length
      · exact ⟨p, _, lookup_set_self hp, by rw [hnew]; simp⟩
      · have hlen : i < (s.pool.calls ++ [enter k]).length := hi
        rw [List.length_append, List.length_singleton] at hlen
        obtain ⟨p', q, hq, hmade⟩ := h.maker i (by omega)
        by_cases hpp : p = p'
        · subst hpp
          rw [hp, Option.some.injEq] at hq
          refine ⟨p, _, lookup_set_self hp, ?_⟩
          rw [← hq] at hmade
          exact List.mem_append_left _ hmade
        · exact ⟨p', q, lookup_set_ne _ hpp hq, hmade⟩
  · exact
      { length := h.length
        follows := fun p q program hq hprogram =>
          (h.follows p q program hq hprogram).advance hs hl hb
        maker := fun i hi => h.maker i (by simpa using hi) }

/-- Every process has a program. -/
theorem Faithful.program {s : System G L K}
    (h : Faithful enter ended kind programs s) {p : Nat} {q : Proc K}
    (hq : s.procs[p]? = some q) :
    ∃ program, programs[p]? = some program ∧
      Follows enter ended kind s.pool.calls program q := by
  have hlt := lookup_lt hq
  rw [h.length] at hlt
  have hprogram := List.getElem?_eq_getElem hlt
  exact ⟨_, hprogram, h.follows p q _ hq hprogram⟩

end Faithful

/-! ## The programs in a log -/

/-- Every call adds at most one section to the log, when it becomes `entered`,
and the section tells the kind of the call. -/
structure Logged (enter : K → L) (body : G → Nat → L → O → Option (G × L))
    (kind : L → J) (log : G → List S) (who : S → Nat) (what : S → J)
    (entered : L → Bool) : Prop where
  fresh : ∀ k, entered (enter k) = false
  step : ∀ g i l o g' l', body g i l o = some (g', l') →
    (log g' = log g ∧ entered l' = entered l) ∨
      ∃ s, entered l = false ∧ entered l' = true ∧ who s = i ∧
        what s = kind l ∧ log g' = log g ++ [s]

/-- The sections in the log are those of the calls that entered. -/
structure InLog (log : List S) (who : S → Nat) (what : S → J) (kind : L → J)
    (entered : L → Bool) (calls : List L) : Prop where
  kinds : ∀ s ∈ log, (calls[who s]?).map kind = some (what s)
  entered : ∀ s ∈ log, (calls[who s]?).any entered = true

/-- The sections of the calls `made`. -/
def sectionsOf (who : S → Nat) (made : List Nat) (log : List S) : List S :=
  log.filter fun s => made.contains (who s)

section Log

variable {enter : K → L} {body : G → Nat → L → O → Option (G × L)}
  {ended : L → Bool} {kind : L → J} {log : G → List S} {who : S → Nat}
  {what : S → J} {entered : L → Bool}

theorem InLog.step (hs : Steady body ended kind)
    (hlog : Logged enter body kind log who what entered) {c d : Conf G L}
    {mv : Move K O}
    (h : InLog (log c.shared) who what kind entered c.calls)
    (hst : CallPool.step enter body c mv = some d) :
    InLog (log d.shared) who what kind entered d.calls := by
  have hlt : ∀ s ∈ log c.shared, who s < c.calls.length := by
    intro s hmem
    obtain ⟨l, hl, -⟩ := Option.map_eq_some_iff.mp (h.kinds s hmem)
    exact lookup_lt hl
  rcases CallPool.step_cases hst with
    ⟨k, -, rfl⟩ | ⟨i, o, l, g, l', -, hl, hb, rfl⟩
  · refine ⟨fun s hmem => ?_, fun s hmem => ?_⟩
    · rw [List.getElem?_append_left (hlt s hmem)]
      exact h.kinds s hmem
    · rw [List.getElem?_append_left (hlt s hmem)]
      exact h.entered s hmem
  · have hkind := hs.kind _ _ _ _ _ _ hb
    have hkeep : entered l' = entered l ∨ entered l' = true := by
      rcases hlog.step _ _ _ _ _ _ hb with ⟨-, hsame⟩ | ⟨s, -, hin, -⟩
      · exact Or.inl hsame
      · exact Or.inr hin
    -- an old section, after the step of call `i`
    have hold : ∀ s ∈ log c.shared,
        ((c.calls.set i l')[who s]?).map kind = some (what s) ∧
          ((c.calls.set i l')[who s]?).any entered = true := by
      intro s hmem
      have h1 := h.kinds s hmem
      have h2 := h.entered s hmem
      by_cases hi : i = who s
      · subst hi
        rw [hl, Option.map_some] at h1
        rw [hl, Option.any_some] at h2
        rw [lookup_set_self hl, Option.map_some, Option.any_some, hkind]
        refine ⟨h1, ?_⟩
        rcases hkeep with hsame | hin
        · rw [hsame]
          exact h2
        · exact hin
      · rw [List.getElem?_set_ne hi]
        exact ⟨h1, h2⟩
    rcases hlog.step _ _ _ _ _ _ hb with
      ⟨hsame, -⟩ | ⟨s, -, hin, hwho, hwhat, happ⟩
    · constructor
      · intro s hmem
        exact (hold s (hsame ▸ hmem)).1
      · intro s hmem
        exact (hold s (hsame ▸ hmem)).2
    · have hnew : ((c.calls.set i l')[who s]?).map kind = some (what s) ∧
          ((c.calls.set i l')[who s]?).any entered = true := by
        rw [hwho, lookup_set_self hl, Option.map_some, Option.any_some, hkind,
          hwhat]
        exact ⟨rfl, hin⟩
      constructor
      · intro s' hmem
        rw [show log g = _ from happ] at hmem
        rcases List.mem_append.mp hmem with hmem | hmem
        · exact (hold s' hmem).1
        · rw [List.mem_singleton.mp hmem]
          exact hnew.1
      · intro s' hmem
        rw [show log g = _ from happ] at hmem
        rcases List.mem_append.mp hmem with hmem | hmem
        · exact (hold s' hmem).2
        · rw [List.mem_singleton.mp hmem]
          exact hnew.2

/-- The sections of the calls `made` come in the order of these calls, each
call that entered with one. -/
def InOrder (log : List S) (who : S → Nat) (entered : L → Bool)
    (calls : List L) (made : List Nat) : Prop :=
  (sectionsOf who made log).map who =
    made.filter fun i => (calls[i]?).any entered

theorem sectionsOf_concat (who : S → Nat) (made : List Nat) (log : List S)
    (s : S) : sectionsOf who made (log ++ [s]) =
      sectionsOf who made log ++
        if made.contains (who s) then [s] else [] := by
  rw [sectionsOf, List.filter_append, List.filter_cons, List.filter_nil]
  rfl

/-- A new call has no section. -/
theorem InOrder.issue (hlog : Logged enter body kind log who what entered)
    {ss : List S} {calls : List L} {made : List Nat}
    (hin : InLog ss who what kind entered calls)
    (hmade : ∀ i ∈ made, i < calls.length)
    (h : InOrder ss who entered calls made) (k : K) :
    InOrder ss who entered (calls ++ [enter k]) made ∧
      InOrder ss who entered (calls ++ [enter k])
        (made ++ [calls.length]) := by
  have hold : (made.filter fun i => ((calls ++ [enter k])[i]?).any entered) =
      made.filter fun i => (calls[i]?).any entered := by
    apply List.filter_congr
    intro i hi
    rw [List.getElem?_append_left (hmade i hi)]
  refine ⟨h.trans hold.symm, ?_⟩
  have hlt : ∀ s ∈ ss, who s < calls.length := by
    intro s hmem
    obtain ⟨l, hl, -⟩ := Option.map_eq_some_iff.mp (hin.kinds s hmem)
    exact lookup_lt hl
  have hsections : sectionsOf who (made ++ [calls.length]) ss =
      sectionsOf who made ss := by
    apply List.filter_congr
    intro s hmem
    have hne : who s ≠ calls.length := Nat.ne_of_lt (hlt s hmem)
    simp [hne]
  show (sectionsOf who (made ++ [calls.length]) ss).map who = _
  rw [hsections, List.filter_append, hold, ← h, List.filter_cons,
    List.filter_nil, List.getElem?_concat_length, Option.any_some, hlog.fresh k]
  exact (List.append_nil _).symm

/-- A call that enters is the last one of its process. -/
theorem InOrder.advance (hs : Steady body ended kind)
    (hlog : Logged enter body kind log who what entered) {calls : List L}
    {program : List K} {q : Proc K} {g g' : G} {i : Nat} {l l' : L} {o : O}
    (hq : Follows enter ended kind calls program q)
    (h : InOrder (log g) who entered calls q.made) (hl : calls[i]? = some l)
    (hb : body g i l o = some (g', l')) :
    InOrder (log g') who entered (calls.set i l') q.made := by
  have hother : ∀ (j : Nat), j ≠ i → ((calls.set i l')[j]?).any entered =
      (calls[j]?).any entered := by
    intro j hj
    rw [List.getElem?_set_ne (Ne.symm hj)]
  rcases hlog.step _ _ _ _ _ _ hb with
    ⟨hsame, hent⟩ | ⟨s, hout, hin, hwho, -, happ⟩
  · show (sectionsOf who q.made (log g')).map who = _
    rw [hsame, show List.map who _ = _ from h]
    apply List.filter_congr
    intro j _
    by_cases hj : j = i
    · rw [hj, lookup_set_self hl, hl, Option.any_some, Option.any_some, hent]
    · rw [hother j hj]
  · show (sectionsOf who q.made (log g')).map who = _
    rw [happ, sectionsOf_concat, List.map_append,
      show List.map who (sectionsOf who q.made (log g)) = _ from h, hwho]
    by_cases hmem : i ∈ q.made
    · -- it has not returned, so no later call was made
      obtain ⟨front, hmade, hlast⟩ := hq.last_of_step hs hl hb hmem
      have hfront : (front.filter fun j => ((calls.set i l')[j]?).any entered) =
          front.filter fun j => (calls[j]?).any entered := by
        apply List.filter_congr
        intro j hj
        exact hother j fun heq => hlast (heq ▸ hj)
      have hcontains : q.made.contains i = true :=
        List.contains_iff_mem.mpr hmem
      rw [if_pos hcontains, hmade, List.filter_append, List.filter_append,
        hfront, List.filter_cons, List.filter_nil, List.filter_cons,
        List.filter_nil, lookup_set_self hl, hl, Option.any_some,
        Option.any_some, hin, hout]
      simp [hwho]
    · have hcontains : q.made.contains i = false := by
        rw [← Bool.not_eq_true]
        exact fun hc => hmem (List.contains_iff_mem.mp hc)
      rw [hcontains, if_neg Bool.false_ne_true, List.map_nil, List.append_nil]
      apply List.filter_congr
      intro j hj
      rw [hother j fun heq => hmem (heq ▸ hj)]

/-- Of two sections of one process the first belongs to the earlier call. -/
theorem InOrder.lt_of_before {ss x y z : List S} {calls : List L}
    {made : List Nat} {s t : S} (h : InOrder ss who entered calls made)
    (hsorted : made.Pairwise (· < ·)) (hss : ss = x ++ s :: (y ++ t :: z))
    (hs : who s ∈ made) (ht : who t ∈ made) : who s < who t := by
  have hkeep : ∀ u : S, who u ∈ made → made.contains (who u) = true :=
    fun u hu => List.contains_iff_mem.mpr hu
  have hpair : ((sectionsOf who made ss).map who).Pairwise (· < ·) := by
    rw [show List.map who _ = _ from h]
    exact hsorted.filter _
  rw [sectionsOf, hss, List.filter_append, List.filter_cons,
    if_pos (hkeep s hs), List.filter_append, List.filter_cons,
    if_pos (hkeep t ht), List.pairwise_map, List.pairwise_append] at hpair
  exact (List.pairwise_cons.mp hpair.2.1).1 t
    (List.mem_append_right _ List.mem_cons_self)

/-- The log only grows. -/
theorem Logged.extends (hlog : Logged enter body kind log who what entered)
    {c d : Conf G L} {mvs : List (Move K O)}
    (hrun : run (CallPool.step enter body) c mvs = some d) :
    ∃ later, log d.shared = log c.shared ++ later := by
  refine run_induct (P := fun d : Conf G L =>
    ∃ later, log d.shared = log c.shared ++ later)
    (fun d mv e hd hst => ?_) ⟨[], (List.append_nil _).symm⟩ hrun
  obtain ⟨later, hlater⟩ := hd
  rcases CallPool.step_cases hst with
    ⟨k, -, rfl⟩ | ⟨i, o, l, g, l', -, hl, hb, rfl⟩
  · exact ⟨later, hlater⟩
  · rcases hlog.step _ _ _ _ _ _ hb with
      ⟨hsame, -⟩ | ⟨s, -, -, -, -, happ⟩
    · exact ⟨later, hsame.trans hlater⟩
    · refine ⟨later ++ [s], ?_⟩
      rw [show log _ = _ from happ, hlater, List.append_assoc]

/-- What all but the last element have, the filter keeps a first part for. -/
theorem filter_eq_take {f : Nat → Bool} {made : List Nat}
    (h : ∀ i ∈ made.dropLast, f i = true) :
    made.filter f = made.take (made.countP f) := by
  rcases List.eq_nil_or_concat made with hnil | ⟨front, last, hmade⟩
  · subst hnil
    rfl
  · rw [List.concat_eq_append] at hmade
    subst hmade
    rw [List.dropLast_concat] at h
    have hfront : front.filter f = front := List.filter_eq_self.mpr h
    rw [List.countP_eq_length_filter, List.filter_append, hfront,
      List.filter_cons, List.filter_nil]
    cases hlast : f last with
    | true => rw [if_pos rfl, List.take_length]
    | false =>
        rw [if_neg Bool.false_ne_true, List.append_nil, List.take_left']
        rfl

/-- What holds in every run of the programs. -/
structure Programmed (enter : K → L) (ended : L → Bool) (kind : L → J)
    (log : G → List S) (who : S → Nat) (what : S → J) (entered : L → Bool)
    (programs : List (List K)) (s : System G L K) : Prop where
  faithful : Faithful enter ended kind programs s
  inLog : InLog (log s.pool.shared) who what kind entered s.pool.calls
  inOrder : ∀ (p : Nat) (q : Proc K), s.procs[p]? = some q →
    InOrder (log s.pool.shared) who entered s.pool.calls q.made

variable {programs : List (List K)}

theorem programmed_boot {g : G} (hg : log g = []) :
    Programmed enter ended kind log who what entered programs
      (boot g programs : System G L K) := by
  refine
    { faithful := faithful_boot g
      inLog := ?_
      inOrder := fun p q hq => ?_ }
  · have hnone : ∀ s, s ∉ log g := by
      intro s hmem
      rw [hg] at hmem
      cases hmem
    exact ⟨fun s hmem => absurd hmem (hnone s),
      fun s hmem => absurd hmem (hnone s)⟩
  · rw [boot, List.getElem?_map] at hq
    obtain ⟨program, -, hq⟩ := Option.map_eq_some_iff.mp hq
    show (sectionsOf who q.made (log g)).map who = _
    rw [hg, ← hq]
    rfl

theorem Programmed.step (hs : Steady body ended kind)
    (hlog : Logged enter body kind log who what entered)
    {s t : System G L K} {a : Action O}
    (h : Programmed enter ended kind log who what entered programs s)
    (hst : Programs.step enter body ended s a = some t) :
    Programmed enter ended kind log who what entered programs t := by
  obtain ⟨mv, hmv⟩ := pool_step hst
  refine ⟨h.faithful.step hs hst, h.inLog.step hs hlog hmv, ?_⟩
  rcases step_cases hst with
    ⟨p, k, todo, made, -, hp, hfree, rfl⟩ | ⟨i, o, l, g, l', -, hl, hb, rfl⟩
  · intro p' q hq
    rcases lookup_set_cases hp hq with ⟨rfl, rfl⟩ | ⟨-, hold⟩
    · obtain ⟨program, -, hfollows⟩ := h.faithful.program hp
      exact (InOrder.issue hlog h.inLog hfollows.issued
        (h.inOrder _ _ hp) k).2
    · obtain ⟨program, -, hfollows⟩ := h.faithful.program hold
      exact (InOrder.issue hlog h.inLog hfollows.issued
        (h.inOrder _ _ hold) k).1
  · intro p q hq
    obtain ⟨program, -, hfollows⟩ := h.faithful.program hq
    exact (h.inOrder p q hq).advance hs hlog hfollows hl hb

/-- The sections of a process are a first part of its program, in its order,
which covers the calls that have returned. -/
theorem Programmed.program_order {s : System G L K}
    (h : Programmed enter ended kind log who what entered programs s)
    {p : Nat} {q : Proc K} {program : List K} (hq : s.procs[p]? = some q)
    (hprogram : programs[p]? = some program)
    (henters : ∀ k ∈ program, ∀ l, kind l = kind (enter k) →
      ended l = true → entered l = true) :
    ∃ m, q.completed ended s.pool.calls ≤ m ∧ m ≤ q.made.length ∧
      (sectionsOf who q.made (log s.pool.shared)).map what =
        (program.take m).map fun k => kind (enter k) := by
  have hfollows := h.faithful.follows p q program hq hprogram
  have hentered : ∀ i ∈ q.made, returned ended s.pool.calls i = true →
      (s.pool.calls[i]?).any entered = true := by
    intro i hi hret
    obtain ⟨k, hk, l, hl, hkind⟩ := hfollows.kind_of hi
    rw [returned, hl, Option.any_some] at hret
    rw [hl, Option.any_some]
    exact henters k hk l hkind hret
  let m := q.made.countP fun i => (s.pool.calls[i]?).any entered
  have hle : m ≤ q.made.length := List.countP_le_length
  have hwho : (sectionsOf who q.made (log s.pool.shared)).map who =
      q.made.take m :=
    (h.inOrder p q hq).trans (filter_eq_take fun i hi =>
      hentered i (List.dropLast_subset _ hi) (hfollows.past i hi))
  refine ⟨m, List.countP_mono_left hentered, hle, ?_⟩
  · have hsome : ((sectionsOf who q.made (log s.pool.shared)).map what).map
        some = ((program.take m).map fun k => kind (enter k)).map some := by
      calc ((sectionsOf who q.made (log s.pool.shared)).map what).map some
          = (sectionsOf who q.made (log s.pool.shared)).map
              fun x => (s.pool.calls[who x]?).map kind := by
            rw [List.map_map]
            apply List.map_congr_left
            intro x hx
            exact (h.inLog.kinds x (List.mem_filter.mp hx).1).symm
        _ = (q.made.take m).map fun i => (s.pool.calls[i]?).map kind := by
            rw [← hwho, List.map_map]
            rfl
        _ = ((program.take q.made.length).map
              fun k => some (kind (enter k))).take m := by
            rw [List.map_take, hfollows.kinds]
        _ = ((program.take m).map fun k => kind (enter k)).map some := by
            rw [← List.map_take, List.take_take, Nat.min_eq_left hle,
              List.map_map]
            rfl
    exact (List.map_inj_right fun _ _ hxy => Option.some.inj hxy).mp hsome

end Log

/-! ## A log of anonymous sections -/

/-- A step of a call adds at most one section to the log, one of its own. -/
def Own (body : G → Nat → L → O → Option (G × L)) (log : G → List S)
    (who : S → Nat) : Prop :=
  ∀ g i l o g' l', body g i l o = some (g', l') →
    log g' = log g ∨ ∃ s, who s = i ∧ log g' = log g ++ [s]

/-- The sections of the calls `made` are those of the first one, then those of
the second one, and so on. -/
def InTurn (who : S → Nat) (made : List Nat) (log : List S) : Prop :=
  sectionsOf who made log =
    made.flatMap fun i => log.filter fun s => who s == i

section Turns

variable {enter : K → L} {body : G → Nat → L → O → Option (G × L)}
  {ended : L → Bool} {kind : L → J} {log : G → List S} {who : S → Nat}

theorem filter_who_concat (i : Nat) (ss : List S) (s : S) :
    ((ss ++ [s]).filter fun s => who s == i) =
      (ss.filter fun s => who s == i) ++
        if who s == i then [s] else [] := by
  rw [List.filter_append, List.filter_cons, List.filter_nil]

/-- A section of a call that the process has not made. -/
theorem InTurn.other {made : List Nat} {ss : List S} {s : S}
    (h : InTurn who made ss) (hs : who s ∉ made) :
    InTurn who made (ss ++ [s]) := by
  unfold InTurn
  rw [sectionsOf_concat, if_neg fun hc => hs (List.contains_iff_mem.mp hc),
    List.append_nil, show sectionsOf who made ss = _ from h]
  apply List.flatMap_congr
  intro i hi
  have hne : (who s == i) = false := beq_false_of_ne fun heq => hs (heq ▸ hi)
  rw [filter_who_concat, hne, if_neg Bool.false_ne_true, List.append_nil]

/-- A section of the call that the process made last. -/
theorem InTurn.last {front : List Nat} {i : Nat} {ss : List S} {s : S}
    (h : InTurn who (front ++ [i]) ss) (hfront : i ∉ front)
    (hs : who s = i) : InTurn who (front ++ [i]) (ss ++ [s]) := by
  have hcontains : (front ++ [i]).contains (who s) = true := by
    rw [hs]
    simp
  have hold : (front.flatMap fun j => (ss ++ [s]).filter fun s => who s == j) =
      front.flatMap fun j => ss.filter fun s => who s == j := by
    apply List.flatMap_congr
    intro j hj
    have hne : (who s == j) = false :=
      beq_false_of_ne fun heq => hfront (hs ▸ heq ▸ hj)
    rw [filter_who_concat, hne, if_neg Bool.false_ne_true, List.append_nil]
  have heq : (who s == i) = true := beq_iff_eq.mpr hs
  unfold InTurn at h ⊢
  rw [sectionsOf_concat, if_pos hcontains, h, List.flatMap_append,
    List.flatMap_append, hold, List.append_assoc]
  simp [heq]

/-- A new call has no section. -/
theorem InTurn.issue {made : List Nat} {ss : List S} {n : Nat}
    (h : InTurn who made ss) (hss : ∀ s ∈ ss, who s < n) :
    InTurn who (made ++ [n]) ss := by
  have hnone : (ss.filter fun s => who s == n) = [] := by
    apply List.filter_eq_nil_iff.mpr
    intro s hmem
    have := hss s hmem
    simp only [beq_iff_eq]
    omega
  have hsame : sectionsOf who (made ++ [n]) ss = sectionsOf who made ss := by
    apply List.filter_congr
    intro s hmem
    have hne : who s ≠ n := Nat.ne_of_lt (hss s hmem)
    simp [hne]
  unfold InTurn at h ⊢
  rw [hsame, h, List.flatMap_append]
  simp [hnone]

/-- Calls that have returned are accounted for by `g`; the last one, if it has
not, may have a section already. -/
theorem flatMap_pending {B : Type} {f : Nat → List B} {g : Nat → Option B}
    {done : Nat → Bool} {made : List Nat}
    (hpast : ∀ i ∈ made.dropLast, done i = true)
    (hall : ∀ i ∈ made, f i = (g i).toList ∨
      done i = false ∧ g i = none ∧ (f i).length ≤ 1) :
    ∃ pending, made.flatMap f = made.filterMap g ++ pending ∧
      pending.length ≤ 1 ∧ (made.getLast?.all done = true → pending = []) := by
  rcases List.eq_nil_or_concat made with hnil | ⟨front, last, hmade⟩
  · subst hnil
    exact ⟨[], rfl, Nat.zero_le 1, fun _ => rfl⟩
  · rw [List.concat_eq_append] at hmade
    subst hmade
    rw [List.dropLast_concat] at hpast
    have hfront : front.flatMap f = front.filterMap g := by
      rw [List.filterMap_eq_flatMap_toList]
      apply List.flatMap_congr
      intro i hi
      rcases hall i (List.mem_append_left _ hi) with hsame | ⟨hnot, -⟩
      · exact hsame
      · rw [hpast i hi] at hnot
        cases hnot
    rw [List.flatMap_append, List.filterMap_append, hfront]
    rcases hall last (by simp) with hsame | ⟨hnot, hnone, hle⟩
    · refine ⟨[], ?_, Nat.zero_le 1, fun _ => rfl⟩
      simp only [List.flatMap_cons, List.flatMap_nil, List.append_nil, hsame]
      cases hg : g last with
      | none => simp [hg]
      | some b => simp [hg]
    · refine ⟨f last, ?_, hle, fun hdone => ?_⟩
      · simp [hnone]
      · simp [hnot] at hdone

/-- The processes follow their programs, and their sections come in turn. -/
structure TakesTurns (enter : K → L) (ended : L → Bool) (kind : L → J)
    (log : G → List S) (who : S → Nat) (programs : List (List K))
    (s : System G L K) : Prop where
  faithful : Faithful enter ended kind programs s
  issued : ∀ x ∈ log s.pool.shared, who x < s.pool.calls.length
  inTurn : ∀ (p : Nat) (q : Proc K), s.procs[p]? = some q →
    InTurn who q.made (log s.pool.shared)

variable {programs : List (List K)}

theorem takesTurns_boot {g : G} (hg : log g = []) :
    TakesTurns enter ended kind log who programs
      (boot g programs : System G L K) := by
  refine ⟨faithful_boot g, fun x hx => ?_, fun p q hq => ?_⟩
  · have hmem : x ∈ log g := hx
    rw [hg] at hmem
    cases hmem
  · rw [boot, List.getElem?_map] at hq
    obtain ⟨program, -, hq⟩ := Option.map_eq_some_iff.mp hq
    rw [← hq]
    show InTurn who [] (log g)
    rw [hg]
    rfl

theorem TakesTurns.step (hs : Steady body ended kind)
    (hlog : Own body log who) {s t : System G L K} {a : Action O}
    (h : TakesTurns enter ended kind log who programs s)
    (hst : Programs.step enter body ended s a = some t) :
    TakesTurns enter ended kind log who programs t := by
  have hfaithful := h.faithful.step hs hst
  rcases step_cases hst with
    ⟨p, k, todo, made, -, hp, hfree, rfl⟩ | ⟨i, o, l, g, l', -, hl, hb, rfl⟩
  · refine ⟨hfaithful, fun x hx => ?_, fun p' q hq => ?_⟩
    · have hlt := h.issued x hx
      rw [List.length_append]
      omega
    · rcases lookup_set_cases hp hq with ⟨rfl, rfl⟩ | ⟨-, hold⟩
      · exact (h.inTurn _ _ hp).issue h.issued
      · exact h.inTurn p' q hold
  · have hi := lookup_lt hl
    rcases hlog _ _ _ _ _ _ hb with hsame | ⟨x, hwho, happ⟩
    · refine ⟨hfaithful, fun x hx => ?_, fun p q hq => ?_⟩
      · rw [List.length_set]
        exact h.issued x (hsame ▸ hx)
      · show InTurn who q.made (log g)
        rw [hsame]
        exact h.inTurn p q hq
    · refine ⟨hfaithful, fun y hy => ?_, fun p q hq => ?_⟩
      · rw [List.length_set]
        rw [show log _ = _ from happ] at hy
        rcases List.mem_append.mp hy with hold | hnew
        · exact h.issued y hold
        · rw [List.mem_singleton.mp hnew, hwho]
          exact hi
      · show InTurn who q.made (log g)
        have hold := h.inTurn p q hq
        rw [happ]
        by_cases hmade : i ∈ q.made
        · obtain ⟨program, -, hfollows⟩ := h.faithful.program hq
          obtain ⟨front, hfront, hnot⟩ :=
            hfollows.last_of_step hs hl hb hmade
          rw [hfront] at hold ⊢
          exact hold.last hnot hwho
        · exact hold.other (hwho ▸ hmade)

end Turns

end EmbeddedSystem.Verified.Programs
