import EmbeddedSystem.Verified.Mailbox
import EmbeddedSystem.Labs.SimpleSpin

/-!
# Which structs `simple_spin` delivers

`kern_buf` is meant to be a mailbox with one slot: a `SIMPLE_SPIN_WRITE` puts
the caller's struct there, and a `SIMPLE_SPIN_READ` takes it out.  What a copy
leaves behind is not undone: a write whose `copy_from_user` stops midway has
the copied bytes followed by zeros in `kern_buf`, and a read clears it even
if the reader got only a part.  As long as these copies change nothing
(`Harmless`), `kern_buf` is the slot of the mailbox that serves the complete
copies in the order of their locked sections (`Mirrors`).
-/

set_option autoImplicit false

namespace EmbeddedSystem.Labs.SimpleSpin

open EmbeddedSystem.Verified
open EmbeddedSystem.Verified.Uaccess
open EmbeddedSystem.Verified.Transition
open EmbeddedSystem.Verified.CallPool
open EmbeddedSystem.Verified.Mailbox

/-! ## The calls together -/

abbrev Conf := CallPool.Conf Spin Call

/-- The outcome of a step is what its user copy leaves behind. -/
abbrev Move := CallPool.Move Ioctl Nat

def step : Conf → Move → Option Conf :=
  CallPool.step simpleSpinIoctl simpleSpinStep

/-- The module right after it was loaded. -/
def loaded : Conf := CallPool.start simpleSpinInit

/-- A call that has read `userBuf`, all of it. -/
def readDone (userBuf : StrSt) : Call := .read ⟨userBuf, .returned 0⟩

/-- A call that has written `userBuf`, all of it. -/
def writeDone (userBuf : StrSt) : Call := .write ⟨userBuf, .returned 0⟩

theorem readDone_ended (g : Spin) (i : Nat) (u : StrSt) (left : Nat) :
    simpleSpinStep g i (readDone u) left = none := rfl

theorem writeDone_ended (g : Spin) (i : Nat) (u : StrSt) (left : Nat) :
    simpleSpinStep g i (writeDone u) left = none := rfl

/-! ## The mailbox behind the locked sections -/

/-- What a section does to the mailbox, if its user copy was complete. -/
def completed : Section → Option (Op StrSt)
  | .read call _ left => if left = 0 then some (.take call) else none
  | .write call msg left => if left = 0 then some (.put ⟨call, msg⟩) else none

def operations (g : Spin) : List (Op StrSt) := g.sections.filterMap completed

def mail (g : Spin) : Box StrSt := after (operations g)

theorem operations_concat (g : Spin) (kernBuf : StrSt) (s : Section) :
    operations ⟨kernBuf, g.sections ++ [s]⟩ =
      operations g ++ (completed s).toList := by
  show (g.sections ++ [s]).filterMap completed = _
  rw [List.filterMap_append]
  rfl

/-! ## The law of the slot -/

/-- Every struct received in full is all zero or was delivered by the
mailbox.  What it delivers is the complete struct of one writer, and no
writer's struct is delivered twice. -/
structure NotTorn (c : Conf) : Prop where
  whole : ∀ i u, c.calls[i]? = some (readDone u) →
    u = cleared ∨ ∃ j, (⟨j, u⟩, i) ∈ (mail c.shared).delivered
  written : ∀ m i, (m, i) ∈ (mail c.shared).delivered →
    c.calls[m.sender]? = some (writeDone m.msg) ∧
      c.calls[i]? = some (readDone m.msg)
  once : ((mail c.shared).delivered.map fun d => d.1.sender).Nodup

/-- A section whose user copy fails leaves `kern_buf` as it is. -/
def FailKeeps (c : Conf) (mv : Move) : Prop :=
  ∀ i left d, mv = .advance i left → left ≠ 0 → step c mv = some d →
    d.shared.kernBuf = c.shared.kernBuf

/-- The copy of the call's section is complete, or what the section does to
`kern_buf` does not show: it clears what is clear, or it copies what is there
already and sets to zero what is zero. -/
def Unseen (g : Spin) (left : Nat) : Call → Prop
  | .read ⟨_, .lock⟩ => left = 0 ∨ g.kernBuf = cleared
  | .write ⟨userBuf, .lock⟩ =>
      left = 0 ∨
        (sameFront userBuf g.kernBuf left = true ∧
          zeroTail g.kernBuf left = true)
  | _ => True

/-- A move that is not a section, or an unseen one. -/
def Harmless (c : Conf) : Move → Prop
  | .issue _ => True
  | .advance i left => ∀ l ∈ c.calls[i]?, Unseen c.shared left l

instance (g : Spin) (left : Nat) : ∀ l, Decidable (Unseen g left l)
  | .read ⟨_, .lock⟩ => inferInstanceAs (Decidable (_ ∨ _))
  | .write ⟨_, .lock⟩ => inferInstanceAs (Decidable (_ ∨ _))
  | .read ⟨_, .returned _⟩ => inferInstanceAs (Decidable True)
  | .write ⟨_, .returned _⟩ => inferInstanceAs (Decidable True)
  | .other => inferInstanceAs (Decidable True)

instance (c : Conf) : ∀ mv, Decidable (Harmless c mv)
  | .issue _ => inferInstanceAs (Decidable True)
  | .advance i left =>
      inferInstanceAs (Decidable (∀ l ∈ c.calls[i]?, Unseen c.shared left l))

/-! ## What a move does to the mailbox -/

/-- A move puts a struct, takes one, or leaves the mailbox alone: it issues a
call, or its user copy fails. -/
inductive Turn (c d : Conf) (mv : Move) : Prop where
  | put (i : Nat) (u : StrSt) (hmv : mv = .advance i 0)
      (hl : c.calls[i]? = some (.write ⟨u, .lock⟩))
      (hcalls : d.calls = c.calls.set i (writeDone u))
      (hbuf : d.shared.kernBuf = u)
      (hops : operations d.shared = operations c.shared ++ [.put ⟨i, u⟩])
  | take (i : Nat) (u : StrSt) (hmv : mv = .advance i 0)
      (hl : c.calls[i]? = some (.read ⟨u, .lock⟩))
      (hcalls : d.calls = c.calls.set i (readDone c.shared.kernBuf))
      (hbuf : d.shared.kernBuf = cleared)
      (hops : operations d.shared = operations c.shared ++ [.take i])
  | quiet
      (hcalls : ∀ (i : Nat) (u : StrSt), d.calls[i]? = some (readDone u) →
        c.calls[i]? = some (readDone u))
      (hbuf : Harmless c mv → d.shared.kernBuf = c.shared.kernBuf)
      (hops : operations d.shared = operations c.shared)

theorem turn_of_issue {c : Conf} {k : Ioctl} :
    Turn c ⟨c.shared, c.calls ++ [simpleSpinIoctl k]⟩ (.issue k) := by
  refine .quiet ?_ (fun _ => rfl) rfl
  intro i u hi
  rcases lookup_append_cases hi with hold | ⟨-, hnew⟩
  · exact hold
  · -- A new call is at its lock.
    unfold simpleSpinIoctl at hnew
    split at hnew
    · cases hnew
    · split at hnew <;> cases hnew

theorem turn {c d : Conf} {mv : Move} (hst : step c mv = some d) :
    Turn c d mv := by
  rcases step_cases hst with
    ⟨k, rfl, rfl⟩ | ⟨i, left, l, g, l', rfl, hl, hb, rfl⟩
  · exact turn_of_issue
  · have hquiet : ∀ l' : Call, (∀ u, l' ≠ readDone u) →
        ∀ (j : Nat) (u : StrSt),
        (c.calls.set i l')[j]? = some (readDone u) →
          c.calls[j]? = some (readDone u) := by
      intro l' hl' j u hj
      rcases lookup_set_cases hl hj with ⟨-, hnew⟩ | ⟨-, hold⟩
      · exact absurd hnew.symm (hl' u)
      · exact hold
    by_cases hleft : left = 0
    · subst hleft
      cases simpleSpinStep_cases hb with
      | read u =>
          refine .take i u rfl hl ?_ rfl (operations_concat _ _ _)
          show _ = c.calls.set i (.read ⟨c.shared.kernBuf, .returned 0⟩)
          rw [copyUser_zero]
      | write u =>
          exact .put i u rfl hl rfl (copyFromUser_zero u) (operations_concat _ _ _)
    · -- The section is not recorded as an operation.
      cases simpleSpinStep_cases hb with
      | read u =>
          refine .quiet (hquiet _ ?_) ?_ ?_
          · intro v hv
            simp only [readDone, Call.read.injEq, UserCall.mk.injEq,
              Pc.returned.injEq] at hv
            exact hleft hv.2
          · intro hC
            exact ((hC _ hl).resolve_left hleft).symm
          · simp [operations_concat, completed, hleft]
      | write u =>
          refine .quiet (hquiet _ ?_) ?_ ?_
          · intro v hv
            cases hv
          · intro hC
            exact (copyFromUser_eq_iff u _ left).mpr
              ((hC _ hl).resolve_left hleft)
          · simp [operations_concat, completed, hleft]

/-! ## Writers sign what they put -/

/-- Each posted struct is the one that its writer, a call that has returned,
has passed; each writer has posted one. -/
structure Posted (c : Conf) : Prop where
  signed : ∀ m ∈ posted (operations c.shared),
    c.calls[m.sender]? = some (writeDone m.msg)
  once : ((posted (operations c.shared)).map Letter.sender).Nodup

theorem posted_loaded : Posted loaded where
  signed := fun _ hm => absurd hm List.not_mem_nil
  once := List.Pairwise.nil

/-- A step that posts nothing. -/
theorem Posted.keep {c d : Conf} {mv : Move} (h : Posted c)
    (hst : step c mv = some d)
    (hp : posted (operations d.shared) = posted (operations c.shared)) :
    Posted d where
  signed := by
    intro m hm
    rw [hp] at hm
    exact lookup_ended (h.signed m hm) (fun g => writeDone_ended g _ _) hst
  once := by
    rw [hp]
    exact h.once

theorem Posted.step {c d : Conf} {mv : Move} (h : Posted c)
    (hst : step c mv = some d) : Posted d := by
  cases turn hst with
  | put i u hmv hl hcalls hbuf hops =>
      have hp : posted (operations d.shared) =
          posted (operations c.shared) ++ [⟨i, u⟩] := by
        rw [hops]
        exact List.filterMap_append
      have hfresh : ∀ m ∈ posted (operations c.shared), m.sender ≠ i := by
        rintro m hm rfl
        rw [h.signed m hm, Option.some.injEq] at hl
        cases hl
      constructor
      · intro m hm
        rw [hp] at hm
        rcases List.mem_append.mp hm with hold | hnew
        · exact lookup_ended (h.signed m hold)
            (fun g => writeDone_ended g _ _) hst
        · rw [List.mem_singleton.mp hnew, hcalls]
          exact lookup_set_self hl
      · rw [hp, List.map_append]
        refine List.nodup_append.mpr ⟨h.once, List.pairwise_singleton _ i, ?_⟩
        intro a ha b hb
        obtain ⟨m, hm, rfl⟩ := List.mem_map.mp ha
        rw [List.mem_singleton.mp hb]
        exact hfresh m hm
  | take i u hmv hl hcalls hbuf hops =>
      refine h.keep hst ?_
      rw [hops]
      exact (List.filterMap_append ..).trans (List.append_nil _)
  | quiet hcalls hbuf hops => exact h.keep hst (by rw [hops])

/-! ## The slot holds what `kern_buf` holds -/

/-- The struct in the slot; an empty slot reads as zeros. -/
def stored (b : Box StrSt) : StrSt :=
  match b.slot with
  | none => cleared
  | some m => m.msg

/-- `kern_buf` is the slot, and the readers have what the mailbox has handed
them. -/
structure Mirrors (c : Conf) : Prop where
  kernBuf : c.shared.kernBuf = stored (mail c.shared)
  received : ∀ i u, c.calls[i]? = some (readDone u) →
    u = cleared ∨ ∃ j, (⟨j, u⟩, i) ∈ (mail c.shared).delivered
  handed : ∀ m i, (m, i) ∈ (mail c.shared).delivered →
    c.calls[i]? = some (readDone m.msg)

theorem mirrors_loaded : Mirrors loaded where
  kernBuf := rfl
  received := fun _ _ h => by cases h
  handed := fun _ _ h => absurd h List.not_mem_nil

theorem Mirrors.step {c d : Conf} {mv : Move} (h : Mirrors c)
    (hC : Harmless c mv) (hst : step c mv = some d) : Mirrors d := by
  have hstay : ∀ m i, (m, i) ∈ (mail c.shared).delivered →
      d.calls[i]? = some (readDone m.msg) := fun m i hm =>
    lookup_ended (h.handed m i hm) (fun g => readDone_ended g _ _) hst
  cases turn hst with
  | put i u hmv hl hcalls hbuf hops =>
      have hmail : mail d.shared =
          { mail c.shared with slot := some ⟨i, u⟩ } := by
        rw [mail, hops, after_concat]
        rfl
      constructor
      · rw [hbuf, hmail]
        rfl
      · intro j v hj
        rw [hcalls] at hj
        rw [hmail]
        rcases lookup_set_cases hl hj with ⟨-, hnew⟩ | ⟨-, hold⟩
        · cases hnew
        · exact h.received j v hold
      · rw [hmail]
        exact hstay
  | take i u hmv hl hcalls hbuf hops =>
      have hmail : mail d.shared = (mail c.shared).apply (.take i) := by
        rw [mail, hops, after_concat]
        rfl
      have hold : ∀ j v, i ≠ j → d.calls[j]? = some (readDone v) →
          v = cleared ∨ ∃ s, (⟨s, v⟩, j) ∈ (mail c.shared).delivered := by
        intro j v hij hj
        rw [hcalls, List.getElem?_set_ne hij] at hj
        exact h.received j v hj
      have hself : ∀ v, d.calls[i]? = some (readDone v) →
          v = c.shared.kernBuf := by
        intro v hv
        rw [hcalls, lookup_set_self hl] at hv
        simp only [readDone, Option.some.injEq, Call.read.injEq,
          UserCall.mk.injEq, and_true] at hv
        exact hv.symm
      constructor
      · rw [hbuf, hmail, stored, slot_take]
      · intro j v hj
        rw [hmail]
        simp only [mem_delivered_take]
        by_cases hij : i = j
        · subst hij
          have hv : v = stored (mail c.shared) := (hself v hj).trans h.kernBuf
          cases hslot : (mail c.shared).slot with
          | none =>
              rw [stored, hslot] at hv
              exact Or.inl hv
          | some m =>
              rw [stored, hslot] at hv
              exact Or.inr ⟨m.sender, Or.inr ⟨m, rfl, by rw [hv]⟩⟩
        · exact (hold j v hij hj).imp id fun ⟨s, hs⟩ => ⟨s, Or.inl hs⟩
      · intro m j hj
        rw [hmail, mem_delivered_take] at hj
        rcases hj with hbefore | ⟨m', hslot, hnow⟩
        · exact hstay m j hbefore
        · obtain ⟨rfl, rfl⟩ := Prod.mk.inj hnow
          have hkern : c.shared.kernBuf = m.msg := by
            rw [h.kernBuf, stored, hslot]
          rw [hcalls, ← hkern]
          exact lookup_set_self hl
  | quiet hcalls hbuf hops =>
      have hmail : mail d.shared = mail c.shared := by
        rw [mail, hops]
        rfl
      constructor
      · rw [hmail, hbuf hC]
        exact h.kernBuf
      · intro i u hi
        rw [hmail]
        exact h.received i u (hcalls i u hi)
      · rw [hmail]
        exact hstay

/-! ## The result -/

theorem notTorn_of_mirrors {c : Conf} (hp : Posted c) (hm : Mirrors c) :
    NotTorn c where
  whole := hm.received
  written := fun m i h =>
    ⟨hp.signed m (delivered_posted h), hm.handed m i h⟩
  once := delivered_once hp.once

/-- What fails leaves `kern_buf` alone exactly if it would not show. -/
theorem failKeeps_iff {c d : Conf} {mv : Move} (hst : step c mv = some d) :
    FailKeeps c mv ↔ Harmless c mv := by
  constructor
  · intro hkeep
    rcases step_cases hst with
      ⟨k, rfl, hd⟩ | ⟨i, left, l, g, l', rfl, hl, hb, hd⟩
    · trivial
    · intro m hm
      obtain rfl : l = m := Option.some.inj (hl.symm.trans hm)
      by_cases hleft : left = 0
      · cases simpleSpinStep_cases hb <;> exact Or.inl hleft
      · have hbuf := hkeep i left d rfl hleft hst
        rw [hd] at hbuf
        cases simpleSpinStep_cases hb with
        | read u => exact Or.inr hbuf.symm
        | write u => exact Or.inr ((copyFromUser_eq_iff u _ left).mp hbuf)
  · rintro hC i left d' rfl hleft hst'
    cases turn hst' with
    | quiet hcalls hbuf hops => exact hbuf hC
    | put j u hmv hl hcalls hbuf hops =>
        exact absurd (CallPool.Move.advance.inj hmv).2 hleft
    | take j u hmv hl hcalls hbuf hops =>
        exact absurd (CallPool.Move.advance.inj hmv).2 hleft

/-- The calls of a run never get a torn struct, nor one that another call has
got, and failed copies leave `kern_buf` alone, exactly if no user copy that
fails changes `kern_buf`. -/
theorem notTorn_iff_harmless {mvs : List Move} {c : Conf}
    (hrun : run step loaded mvs = some c) :
    Throughout step NotTorn loaded mvs ∧ Along step FailKeeps loaded mvs ↔
      Along step Harmless loaded mvs := by
  have hkeeps : Along step FailKeeps loaded mvs ↔
      Along step Harmless loaded mvs :=
    along_iff_along (I := fun _ => True) (B := fun _ _ => True)
      (fun _ _ _ _ _ _ _ => trivial) (fun _ _ _ _ _ hst => failKeeps_iff hst)
      trivial (along_of_forall fun _ _ _ => trivial) hrun
  rw [hkeeps]
  constructor
  · exact fun h => h.2
  · intro hC
    refine ⟨?_, hC⟩
    intro xs ys t hsplit ht
    rw [hsplit] at hC
    have hp : Posted t :=
      run_induct (fun s a u hs hst => Posted.step hs hst) posted_loaded ht
    have hm : Mirrors t :=
      run_induct_along (fun s a u hs hCs hst => Mirrors.step hs hCs hst)
        mirrors_loaded hC.of_append ht
    exact notTorn_of_mirrors hp hm

/-- A read that fails before anything was written, a message that is read,
and a message that the next one overwrites. -/
def wholeRun : List Move :=
  [ .issue ⟨simpleSpinReadCmd, cleared⟩, .advance 0 132,
    .issue ⟨simpleSpinWriteCmd, Vector.replicate 132 1⟩, .advance 1 0,
    .issue ⟨simpleSpinReadCmd, cleared⟩, .advance 2 0,
    .issue ⟨simpleSpinWriteCmd, Vector.replicate 132 2⟩, .advance 3 0,
    .issue ⟨simpleSpinWriteCmd, Vector.replicate 132 3⟩, .advance 4 0,
    .issue ⟨simpleSpinReadCmd, cleared⟩, .advance 5 0 ]

/-- The senders of the structs that were delivered, and their receivers. -/
def deliveries (c : Conf) : List (Nat × Nat) :=
  (mail c.shared).delivered.map fun d => (d.1.sender, d.2)

theorem notTorn_iff_harmless_wholeRun :
    ∃ c, run step loaded wholeRun = some c ∧
      deliveries c = [(1, 2), (4, 5)] ∧
      Throughout step NotTorn loaded wholeRun ∧
      Along step FailKeeps loaded wholeRun := by
  have hend : (run step loaded wholeRun).map deliveries =
      some [(1, 2), (4, 5)] := by
    decide +kernel
  have hall : Along step Harmless loaded wholeRun := by
    refine (along_cons_of_step rfl).mpr ⟨trivial, ?_⟩
    refine (along_cons_of_step rfl).mpr ⟨?_, by decide +kernel⟩
    -- The first read fails, and `kern_buf` is all zero.
    intro l hl
    cases hl
    exact Or.inr rfl
  obtain ⟨c, hrun, hc⟩ := Option.map_eq_some_iff.mp hend
  exact ⟨c, hrun, hc, (notTorn_iff_harmless hrun).mpr hall⟩

/-- A write that leaves `left` bytes of its struct behind, then a read. -/
def writeThenRead (u v : StrSt) (left : Nat) : List Move :=
  [ .issue ⟨simpleSpinWriteCmd, u⟩, .advance 0 left,
    .issue ⟨simpleSpinReadCmd, v⟩, .advance 1 0 ]

theorem run_writeThenRead (u v : StrSt) (left : Nat) :
    run step loaded (writeThenRead u v left) =
      some ⟨⟨cleared, [.write 0 u left, .read 1 (copyFromUser u left) 0]⟩,
        [.write ⟨u, .returned left⟩, readDone (copyFromUser u left)]⟩ := by
  have hread : copyUser v (copyFromUser u left) 0 = copyFromUser u left :=
    copyUser_zero _ _
  show some (⟨⟨cleared, [.write 0 u left, .read 1 (copyFromUser u left) 0]⟩,
    [.write ⟨u, .returned left⟩,
      .read ⟨copyUser v (copyFromUser u left) 0, .returned 0⟩]⟩ : Conf) = _
  rw [hread]
  rfl

/-- A struct whose last 100 bytes lie on a page that is not there. -/
def tornRun : List Move :=
  writeThenRead (Vector.replicate 132 2) cleared 100

/-- What its reader gets: 32 bytes of the writer's struct, and 100 zeros. -/
def tornStruct : StrSt := copyFromUser (Vector.replicate 132 2) 100

/-- The struct is received in full, but it is neither zero nor the only one
that was passed to a write. -/
theorem tornRun_torn :
    ∃ c, run step loaded tornRun = some c ∧
      c.calls = [.write ⟨Vector.replicate 132 2, .returned 100⟩,
        readDone tornStruct] ∧
      tornStruct ≠ cleared ∧ tornStruct ≠ Vector.replicate 132 2 ∧
      ¬ NotTorn c := by
  have hzero : tornStruct ≠ cleared := by
    intro h
    have hbyte : tornStruct[0] = cleared[0] := by rw [h]
    exact absurd hbyte (by decide +kernel)
  have hpassed : tornStruct ≠ Vector.replicate 132 2 := by
    intro h
    have hbyte : tornStruct[131] = (Vector.replicate 132 (2 : UInt8))[131] := by
      rw [h]
    exact absurd hbyte (by decide +kernel)
  refine ⟨_, run_writeThenRead _ _ _, rfl, hzero, hpassed, ?_⟩
  intro h
  rcases h.whole 1 tornStruct rfl with h0 | ⟨j, hj⟩
  · exact hzero h0
  · exact absurd hj List.not_mem_nil

end EmbeddedSystem.Labs.SimpleSpin
