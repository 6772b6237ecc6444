import EmbeddedSystem.Labs.SimpleRcuReaders

/-!
# The readers of `simple_rcu` see the version published last

`published` follows the publications along a run.  In a run whose writers do
not overlap, the current version always contains the value published last
(`Offers.step`), so a reader takes that value with it from its
`rcu_dereference` (`Carries`), and nothing that happens until its last print
changes what it reads there (`Carries.step`).
-/

set_option autoImplicit false

namespace EmbeddedSystem.Labs.SimpleRcu

open EmbeddedSystem.Verified
open EmbeddedSystem.Verified.Transition
open EmbeddedSystem.Verified.CallPool

/-! ## The value published last -/

/-- The value of the version that a move publishes, if it publishes one. -/
def publishes (c : Conf) : Move → Option (BitVec 64)
  | .issue _ => none
  | .advance i _ =>
      match c.calls[i]? with
      | some (.write w) => if w.pc = .assign then some w.arg else none
      | _ => none

/-- The value published last when the moves have been made; `v` was the value
before them. -/
def published : Conf → BitVec 64 → List Move → BitVec 64
  | _, v, [] => v
  | c, v, mv :: mvs =>
      match step c mv with
      | none => v
      | some d => published d ((publishes c mv).getD v) mvs

/-- The current version keeps its contents until the next one is
published. -/
theorem Offers.step {c d : Conf} {mv : Move} {v : BitVec 64}
    (h : Offers c.shared v) (hs : SoleOwners c) (hr : Readers c)
    (hst : SimpleRcu.step c mv = some d) :
    Offers d.shared ((publishes c mv).getD v) := by
  rcases step_cases hst with
    ⟨k, hmv, hd⟩ | ⟨i, mem, l, g, l', hmv, hl, hbody, hd⟩
  · subst hmv hd
    exact h
  · subst hmv hd
    obtain ⟨p, hp, hval⟩ := Option.bind_eq_some_iff.mp h
    have hcur : current c.shared p = 1 := by simp [current, hp]
    have hkeep : g.slab.get p = some v :=
      hs.get_step hl hbody (Or.inl hcur) hval
    have hsame : g.myData = c.shared.myData → Offers g v := by
      intro hdata
      rw [Offers, hdata, hp]
      exact hkeep
    rcases simpleRcuStep_inv hbody with
      ⟨r, r', rfl, rfl, hread⟩ | ⟨w, w', rfl, rfl, hwrite, -⟩
    · simp only [publishes, hl, Option.getD_none]
      exact hsame hread.myData
    · by_cases hpc : w.pc = .assign
      · simp only [publishes, hl, hpc, if_true, Option.getD_some]
        have hstored := hr.stored_step hs hl hbody hl (Or.inr hpc)
        cases hwrite with
        | assign _ => exact hstored
        | _ => simp_all
      · simp only [publishes, hl, hpc, if_false, Option.getD_none]
        exact hsame (hwrite.myData.resolve_right fun h => hpc h.1)

/-! ## Writers that do not overlap -/

/-- 1 for an `IOCTL_WRITE` in progress. -/
def writing : Call → Nat
  | .write w => if (Call.write w).ended then 0 else 1
  | _ => 0

/-- No `IOCTL_WRITE` is issued while another one is in progress. -/
def WritesApart (c : Conf) : Move → Prop
  | .issue k => writing (simpleIoctl k) = 0 ∨ total writing c.calls = 0
  | .advance _ _ => True

instance (c : Conf) : ∀ mv, Decidable (WritesApart c mv)
  | .issue k => inferInstanceAs (Decidable (writing (simpleIoctl k) = 0 ∨ _))
  | .advance _ _ => inferInstanceAs (Decidable True)

theorem writing_le_one (l : Call) : writing l ≤ 1 := by
  cases l with
  | write w =>
      simp only [writing]
      split
      · exact Nat.zero_le 1
      · exact Nat.le_refl 1
  | _ => exact Nat.zero_le 1

/-- A writer that takes a step is in progress. -/
theorem WriteStep.writing {g g' : Rcu} {w w' : WriteCall}
    (h : WriteStep g w g' w') : SimpleRcu.writing (.write w) = 1 := by
  cases h <;> simp_all [SimpleRcu.writing, Call.ended]

/-- A call that takes a step does not become a writer in progress by it. -/
theorem writing_step {g g' : Rcu} {i : Nat} {l l' : Call}
    {mem : Option (BitVec 64)}
    (h : simpleRcuStep g i l mem = some (g', l')) : writing l' ≤ writing l := by
  rcases simpleRcuStep_inv h with
    ⟨r, r', rfl, rfl, -⟩ | ⟨w, w', rfl, rfl, hwrite, -⟩
  · exact Nat.le_refl 0
  · rw [hwrite.writing]
    exact writing_le_one (.write w')

theorem oneWrite_step {c d : Conf} {mv : Move}
    (h : total writing c.calls ≤ 1) (hapart : WritesApart c mv)
    (hst : SimpleRcu.step c mv = some d) : total writing d.calls ≤ 1 := by
  rcases step_cases hst with
    ⟨k, hmv, hd⟩ | ⟨i, mem, l, g, l', hmv, hl, hbody, hd⟩
  · subst hmv hd
    have hnew := writing_le_one (simpleIoctl k)
    show total writing (c.calls ++ [simpleIoctl k]) ≤ 1
    rw [total_append_one]
    rcases hapart with hzero | hzero <;> omega
  · subst hd
    have hset := total_set writing l' hl
    have hle := writing_step hbody
    show total writing (c.calls.set i l') ≤ 1
    omega

/-- A writer that is alone loads `my_data` alone. -/
theorem loadsAlone_of_oneWrite {c : Conf} (h : total writing c.calls ≤ 1)
    (mv : Move) : LoadsAlone c mv := by
  cases mv with
  | issue k => trivial
  | advance i mem =>
      intro l hl hload
      apply Classical.byContradiction
      intro hbusy
      obtain ⟨j, u, hj, hpc⟩ := exists_publishing hbusy
      rw [Option.mem_def] at hl
      cases l with
      | read r => cases hload
      | invalid => cases hload
      | write w =>
          have hw : w.pc = .loadOld := of_decide_eq_true hload
          have hij : i ≠ j := by
            rintro rfl
            rw [hl, Option.some.injEq, Call.write.injEq] at hj
            rw [hj, hpc] at hw
            cases hw
          have htwo := add_le_total writing hij hl hj
          simp [writing, Call.ended, hw, hpc] at htwo
          omega

/-- The invariant of the runs whose writers do not overlap. -/
structure Apart (c : Conf) : Prop where
  oneWrite : total writing c.calls ≤ 1
  owners : SoleOwners c
  readers : Readers c

theorem loaded_apart (junk : BitVec 64) : Apart (loaded junk) :=
  ⟨Nat.zero_le 1, loaded_soleOwners junk, loaded_readers junk⟩

theorem Apart.step {c d : Conf} {mv : Move} (h : Apart c)
    (hapart : WritesApart c mv) (hst : SimpleRcu.step c mv = some d) :
    Apart d :=
  { oneWrite := oneWrite_step h.oneWrite hapart hst
    owners := h.owners.step (loadsAlone_of_oneWrite h.oneWrite mv) hst
    readers := h.readers.step h.owners hst }

/-- The current version contains the value published last. -/
theorem offers_published {c d : Conf} {v : BitVec 64} {mvs : List Move}
    (h : Apart c) (hv : Offers c.shared v)
    (hapart : Along SimpleRcu.step WritesApart c mvs)
    (hrun : run SimpleRcu.step c mvs = some d) :
    Offers d.shared (published c v mvs) := by
  induction mvs generalizing c v with
  | nil =>
      rw [run_nil, Option.some.injEq] at hrun
      rw [← hrun]
      exact hv
  | cons mv mvs ih =>
      obtain ⟨m, hm, hrest⟩ := run_cons_some hrun
      rw [along_cons_of_step hm] at hapart
      rw [published, hm]
      exact ih (h.step hapart.1 hm) (hv.step h.owners h.readers hm)
        hapart.2 hrest

/-! ## What a reader carries with it -/

/-- What a reader has printed when it prints `v` every time. -/
def ReadCall.Prints (r : ReadCall) (v : BitVec 64) : Prop :=
  match r.pc with
  | .lock => False
  | .dereference => False
  | .firstPrint => r.printed = []
  | .secondPrint => r.printed = [v]
  | .unlock => r.printed = [v, v]
  | .returned => r.printed = [v, v]

/-- The reader has read `v` so far, and what it holds contains `v`. -/
structure Carries (g : Rcu) (v : BitVec 64) (r : ReadCall) : Prop where
  prints : r.Prints v
  pointer : r.holding → r.old.bind g.slab.get = some v

/-- A reader reads what it carries. -/
theorem ReadStep.carries {g g' : Rcu} {i : Nat} {r r' : ReadCall}
    {v : BitVec 64} (h : ReadStep g i r g' r') (hv : Carries g v r) :
    Carries g' v r' := by
  obtain ⟨hprints, hptr⟩ := hv
  cases h with
  | lock hpc => simp [ReadCall.Prints, hpc] at hprints
  | foundNull hpc hnull => simp [ReadCall.Prints, hpc] at hprints
  | dereference p hpc hdata => simp [ReadCall.Prints, hpc] at hprints
  | firstPrint p hpc hold =>
      have hval := hptr (Or.inl hpc)
      rw [hold, Option.bind_some] at hval
      simp only [ReadCall.Prints, hpc] at hprints
      refine ⟨?_, fun _ => ?_⟩
      · show r.printed ++ [(g.slab.get p).getD 0] = [v]
        rw [hprints, hval]
        rfl
      · show r.old.bind (g.slab.touch p).get = some v
        rw [hold, Option.bind_some, Slab.get_touch]
        exact hval
  | secondPrint p hpc hold =>
      have hval := hptr (Or.inr hpc)
      rw [hold, Option.bind_some] at hval
      simp only [ReadCall.Prints, hpc] at hprints
      refine ⟨?_, fun hh => ?_⟩
      · show r.printed ++ [(g.slab.get p).getD 0] = [v, v]
        rw [hprints, hval]
        rfl
      · rcases hh with h | h <;> cases h
  | unlock hpc =>
      simp only [ReadCall.Prints, hpc] at hprints
      refine ⟨hprints, fun hh => ?_⟩
      rcases hh with h | h <;> cases h

/-- Reader `i` is there and carries `v`. -/
def CarriedBy (i : Nat) (v : BitVec 64) (c : Conf) : Prop :=
  ∃ r, c.calls[i]? = some (.read r) ∧ Carries c.shared v r

theorem CarriedBy.step {c d : Conf} {mv : Move} {i : Nat} {v : BitVec 64}
    (h : CarriedBy i v c) (ha : Apart c)
    (hst : SimpleRcu.step c mv = some d) : CarriedBy i v d := by
  obtain ⟨r, hr, hcarries⟩ := h
  rcases step_cases hst with
    ⟨k, -, hd⟩ | ⟨j, mem, l, g, l', -, hl, hbody, hd⟩
  · rw [hd]
    exact ⟨r, lookup_append_old _ hr, hcarries⟩
  · rw [hd]
    by_cases hji : j = i
    · subst hji
      rw [hr, Option.some.injEq] at hl
      subst hl
      rcases simpleRcuStep_inv hbody with
        ⟨s, s', hs, rfl, hread⟩ | ⟨w, w', hw, -⟩
      · cases hs
        exact ⟨s', lookup_set_self hr, hread.carries hcarries⟩
      · cases hw
    · -- nobody stores to the version that the reader holds
      refine ⟨r, lookup_set_ne _ hji hr, hcarries.prints, fun hhold => ?_⟩
      obtain ⟨p, hp, hheld⟩ := ha.readers.held i r hr hhold
      have hval := hcarries.pointer hhold
      rw [hp, Option.bind_some] at hval ⊢
      exact ha.owners.get_step hl hbody hheld.owner hval

/-! ## The result -/

/-- The reader is before its `rcu_dereference`. -/
def ReadCall.Early (r : ReadCall) : Prop :=
  (r.pc = .lock ∨ r.pc = .dereference) ∧ r.printed = []

/-- The next statement of reader `i` is its `rcu_dereference`. -/
def Dereferences (i : Nat) (c : Conf) : Prop :=
  ∃ r, c.calls[i]? = some (.read r) ∧ r.pc = .dereference

/-- The move is not the `rcu_dereference` of reader `i`. -/
def Elsewhere (i : Nat) (c : Conf) (mv : Move) : Prop :=
  ∀ o, mv = .advance i o → ¬ Dereferences i c

/-- Without its `rcu_dereference` a reader gets nowhere. -/
theorem early_step {i : Nat} {c d : Conf} {mv : Move}
    (h : ∀ r, c.calls[i]? = some (.read r) → r.Early)
    (helse : Elsewhere i c mv) (hst : SimpleRcu.step c mv = some d) :
    ∀ r, d.calls[i]? = some (.read r) → r.Early := by
  intro r hr
  rcases step_cases hst with
    ⟨k, -, hd⟩ | ⟨j, mem, l, g, l', hmv, hl, hbody, hd⟩
  · rw [hd] at hr
    rcases lookup_append_cases hr with hold | ⟨-, hnew⟩
    · exact h r hold
    · unfold simpleIoctl at hnew
      split at hnew
      · cases hnew
        exact ⟨Or.inl rfl, rfl⟩
      · split at hnew <;> cases hnew
  · rw [hd] at hr
    rcases lookup_set_cases hl hr with ⟨hij, hown⟩ | ⟨-, hold⟩
    · subst hij hown
      rcases simpleRcuStep_inv hbody with
        ⟨s, s', hs, hs', hread⟩ | ⟨w, w', -, hw', -⟩
      · cases hs'
        subst hs
        obtain ⟨hpc, hprinted⟩ := h s hl
        rcases hpc with hpc | hpc
        · cases hread with
          | lock _ => exact ⟨Or.inr rfl, hprinted⟩
          | _ => simp_all
        · exact absurd ⟨s, hl, hpc⟩ (helse mem hmv)
      · cases hw'
    · exact h r hold

/-- A reader goes on from its `rcu_dereference` with the current value. -/
theorem carriedBy_of_dereferences {i : Nat} {v : BitVec 64} {c d : Conf}
    {mem : Option (BitVec 64)} (hv : Offers c.shared v)
    (hearly : ∀ r, c.calls[i]? = some (.read r) → r.Early)
    (hder : Dereferences i c)
    (hst : SimpleRcu.step c (.advance i mem) = some d) :
    CarriedBy i v d := by
  obtain ⟨r, hr, hpc⟩ := hder
  obtain ⟨p, hp, hval⟩ := Option.bind_eq_some_iff.mp hv
  have hbody : simpleRcuStep c.shared i (.read r) mem = some (c.shared,
      .read { r with old := some p, pc := .firstPrint }) := by
    simp [simpleRcuStep, readStep, hpc, hp]
  have hstep : SimpleRcu.step c (.advance i mem) = _ := step_advance hr hbody
  rw [hstep, Option.some.injEq] at hst
  subst hst
  exact ⟨_, lookup_set_self hr, (hearly r hr).2, fun _ => hval⟩

/-- In every run whose `IOCTL_WRITE` calls do not overlap, no access met an
object that was freed, and every reader that got past its `rcu_dereference`
prints nothing but the value published last when it made it. -/
theorem readers_see_published {junk : BitVec 64} {c : Conf}
    {mvs : List Move} (hrun : run step (loaded junk) mvs = some c)
    (hapart : Along step WritesApart (loaded junk) mvs) :
    c.shared.slab.stale = 0 ∧
      ∀ (i : Nat) (r : ReadCall), c.calls[i]? = some (.read r) →
        r.Early ∨
          ∃ xs mem ys d, mvs = xs ++ .advance i mem :: ys ∧
            run step (loaded junk) xs = some d ∧ Dereferences i d ∧
            r.Prints (published (loaded junk) 0 xs) := by
  have hinv : ∀ xs t, run step (loaded junk) xs = some t →
      Along step WritesApart (loaded junk) xs → Apart t := by
    intro xs t hxs hall
    exact run_induct_along (fun _ _ _ h hC hst => Apart.step h hC hst)
      (loaded_apart junk) hall hxs
  refine ⟨(hinv mvs c hrun hapart).readers.neverStale, fun i r hr => ?_⟩
  have hearly : ∀ xs t, run step (loaded junk) xs = some t →
      Along step (Elsewhere i) (loaded junk) xs →
        ∀ s, t.calls[i]? = some (.read s) → s.Early := by
    intro xs t hxs hall
    refine run_induct_along (fun _ _ _ h hC hst => early_step h hC hst)
      (fun s hs => ?_) hall hxs
    simp [loaded, start] at hs
  by_cases hall : Along step (Elsewhere i) (loaded junk) mvs
  · exact Or.inl (hearly mvs c hrun hall r hr)
  · obtain ⟨xs, mv, ys, t, t', hsplit, helse, hxs, hbreak, hst, hys⟩ :=
      first_break hrun hall
    simp only [Elsewhere, Classical.not_forall, Classical.not_not] at hbreak
    obtain ⟨mem, rfl, hder⟩ := hbreak
    rw [hsplit] at hapart
    have hbefore := hapart.of_append
    have hoffers := offers_published (loaded_apart junk)
      (loaded_offers junk) hbefore hxs
    have ht := hinv xs t hxs hbefore
    have hcarried :=
      carriedBy_of_dereferences hoffers (hearly xs t hxs helse) hder hst
    have hafter := hapart.rest hxs
    rw [along_cons_of_step hst] at hafter
    have hend := run_induct_along
      (P := fun c => Apart c ∧
        CarriedBy i (published (loaded junk) 0 xs) c)
      (fun _ _ _ h hC hst => ⟨h.1.step hC hst, h.2.step h.1 hst⟩)
      ⟨ht.step hafter.1 hst, hcarried⟩ hafter.2 hys
    obtain ⟨r', hr', hcarries⟩ := hend.2
    rw [hr, Option.some.injEq, Call.read.injEq] at hr'
    subst hr'
    exact Or.inr ⟨xs, mem, ys, t, hsplit, hxs, hder, hcarries.prints⟩

/-- A writer publishes while a reader is between its two prints, and a second
reader comes after it. -/
def overlapRun : List Move :=
  List.flatten
    [ .issue ⟨ioctlRead, 0⟩ :: List.replicate 3 (.advance 0 none)
    , .issue ⟨ioctlWrite, 7⟩ :: List.replicate 5 (.advance 1 (some 9))
    , List.replicate 2 (.advance 0 none)
    , List.replicate 2 (.advance 1 none)
    , .issue ⟨ioctlRead, 0⟩ :: List.replicate 5 (.advance 2 none) ]

theorem readers_see_published_overlapRun :
    ∃ c, run step (loaded 0) overlapRun = some c ∧
      c.calls[0]? = some (.read ⟨some 0, [0, 0], .returned⟩) ∧
      c.calls[2]? = some (.read ⟨some 1, [7, 7], .returned⟩) ∧
      c.shared.slab.stale = 0 ∧
      ∀ (i : Nat) (r : ReadCall), c.calls[i]? = some (.read r) →
        r.Early ∨
          ∃ xs mem ys d, overlapRun = xs ++ .advance i mem :: ys ∧
            run step (loaded 0) xs = some d ∧ Dereferences i d ∧
            r.Prints (published (loaded 0) 0 xs) := by
  have hend : (run step (loaded 0) overlapRun).map
      (fun c => (c.calls[0]?, c.calls[2]?)) =
        some (some (.read ⟨some 0, [0, 0], .returned⟩),
          some (.read ⟨some 1, [7, 7], .returned⟩)) := by
    decide +kernel
  obtain ⟨c, hrun, hc⟩ := Option.map_eq_some_iff.mp hend
  rw [Prod.mk.injEq] at hc
  exact ⟨c, hrun, hc.1, hc.2,
    readers_see_published hrun (by decide +kernel)⟩

end EmbeddedSystem.Labs.SimpleRcu
