import EmbeddedSystem.Verified.CallPool

/-!
# Open files and the removal of a module

Opening a character device takes one reference to a module for every owner
field that names it, and `delete_module` refuses while there is a reference.
An owner that is going away gives no reference, so its device cannot be
opened any more; a device without an owner can, until `cdev_del` has run.
The last reference to a file is dropped when no call on it is in progress, so
a file in use is not released.

`Alone` is what an exit function needs: no file is open, no call is in
progress and none can take a step.  For a driver that names an owner this
holds in every run.  For one that names none it holds exactly as long as the
module is removed, and its device opened, in the right order (`InOrder`).
-/

set_option autoImplicit false

namespace EmbeddedSystem.Verified.ModuleRef

open EmbeddedSystem.Verified.Transition
open EmbeddedSystem.Verified.CallPool

/-- A module with a character device: the number of owner fields that name
it, its calls as in `CallPool`, and its exit function.  `deviceGone` holds of
the statements after `cdev_del`. -/
structure Driver where
  Shared : Type
  Local : Type
  Args : Type
  Choice : Type
  ExitPc : Type
  owners : Nat
  shared : Shared
  enter : Args → Local
  body : Shared → Nat → Local → Choice → Option (Shared × Local)
  ended : Local → Bool
  body_ended : ∀ {g i l o r}, body g i l o = some r → ended l = false
  asleep : Local → Bool
  asleep_ended : ∀ {l}, asleep l = true → ended l = false
  exitFirst : ExitPc
  exitStep : Shared → ExitPc → Option (Shared × ExitPc)
  deviceGone : ExitPc → Bool

namespace Driver

variable (D : Driver)

/-- A call together with the number of its file. -/
abbrev FileCall : Type := Nat × D.Local

def fileEnter (k : Nat × D.Args) : D.FileCall := (k.1, D.enter k.2)

def fileBody (g : D.Shared) (i : Nat) (l : D.FileCall) (o : D.Choice) :
    Option (D.Shared × D.FileCall) :=
  (D.body g i l.2 o).map fun r => (r.1, (l.1, r.2))

/-- The calls, the files ever opened and whether they still are, the
module's reference count, and the exit function once it is called. -/
structure State where
  pool : Conf D.Shared D.FileCall
  files : List Bool
  refs : Nat
  exit : Option D.ExitPc

inductive Event where
  | chrdevOpen
  | release (f : Nat)
  | ioctl (f : Nat) (k : D.Args)
  | advance (i : Nat) (o : D.Choice)
  | deleteModule
  | exit

/-- The module right after it was loaded. -/
def begin : D.State := ⟨start D.shared, [], 0, none⟩

/-- The call is not in progress on file `f`. -/
def offFile (f : Nat) (l : D.FileCall) : Bool := l.1 != f || D.ended l.2

/-- One event. -/
def use (s : D.State) : D.Event → Option D.State
  | .chrdevOpen =>
      if s.exit.any D.deviceGone ∨ (D.owners ≠ 0 ∧ s.exit.isSome) then none
      else some { s with
        files := s.files ++ [true]
        refs := s.refs + D.owners }
  | .release f =>
      if s.files[f]? = some true ∧ s.pool.calls.all (D.offFile f) then
        some { s with
          files := s.files.set f false
          refs := s.refs - D.owners }
      else none
  | .ioctl f k =>
      if s.files[f]? = some true then
        (step D.fileEnter D.fileBody s.pool (.issue (f, k))).map fun c =>
          { s with pool := c }
      else none
  | .advance i o =>
      (step D.fileEnter D.fileBody s.pool (.advance i o)).map fun c =>
        { s with pool := c }
  | .deleteModule =>
      if s.exit.isNone ∧ s.refs = 0 then
        some { s with exit := some D.exitFirst }
      else none
  | .exit =>
      match s.exit with
      | none => none
      | some pc =>
          (D.exitStep s.pool.shared pc).map fun r =>
            { s with
              pool := { s.pool with shared := r.1 }
              exit := some r.2 }

/-- Where the exit function has been called, no file is open, no call is in
progress, let alone asleep, and no ioctl takes a step any more. -/
structure Alone (s : D.State) : Prop where
  closed : s.exit.isSome → true ∉ s.files
  ended : s.exit.isSome → ∀ l ∈ s.pool.calls, D.ended l.2 = true
  awake : s.exit.isSome → ∀ l ∈ s.pool.calls, D.asleep l.2 = false
  still : s.exit.isSome →
    (∀ f k, D.use s (.ioctl f k) = none) ∧
      ∀ i o, D.use s (.advance i o) = none

/-- The module is removed only when no file is open, and its device is not
opened once its exit function has been called. -/
def InOrder (s : D.State) : D.Event → Prop
  | .deleteModule => true ∉ s.files
  | .chrdevOpen => s.exit.isNone
  | _ => True

instance (s : D.State) : ∀ e, Decidable (D.InOrder s e)
  | .deleteModule => inferInstanceAs (Decidable (true ∉ s.files))
  | .chrdevOpen => inferInstanceAs (Decidable (s.exit.isNone = true))
  | .release _ => inferInstanceAs (Decidable True)
  | .ioctl _ _ => inferInstanceAs (Decidable True)
  | .advance _ _ => inferInstanceAs (Decidable True)
  | .exit => inferInstanceAs (Decidable True)

/-! ## The reference count -/

/-- The number of open files. -/
def opened (files : List Bool) : Nat := total Bool.toNat files

/-- The references are those of the open files, every call in progress has
an open file, and no file is open beside the exit function. -/
structure Counted (s : D.State) : Prop where
  refs : s.refs = D.owners * opened s.files
  busy : ∀ (i : Nat) (f : Nat) (l : D.Local),
    s.pool.calls[i]? = some (f, l) → D.ended l = false →
      s.files[f]? = some true
  closed : s.exit.isSome → true ∉ s.files

theorem begin_counted : D.Counted D.begin :=
  { refs := rfl
    busy := fun i f l hl => by simp [begin, start] at hl
    closed := fun h => by cases h }

variable {D}

theorem not_opened {files : List Bool} (h : opened files = 0) :
    true ∉ files := by
  intro hmem
  obtain ⟨f, hf⟩ := List.getElem?_of_mem hmem
  have hle : 1 ≤ opened files := le_total Bool.toNat hf
  omega

/-- Only a call in progress takes a step. -/
theorem fileBody_cases {g g' : D.Shared} {i : Nat} {l l' : D.FileCall}
    {o : D.Choice} (h : D.fileBody g i l o = some (g', l')) :
    D.ended l.2 = false ∧ l'.1 = l.1 := by
  simp only [fileBody, Option.map_eq_some_iff, Prod.mk.injEq] at h
  obtain ⟨r, hr, -, rfl⟩ := h
  exact ⟨D.body_ended hr, rfl⟩

theorem Counted.alone {s : D.State} (h : D.Counted s) : D.Alone s := by
  have hended : s.exit.isSome → ∀ l ∈ s.pool.calls, D.ended l.2 = true := by
    intro hexit l hl
    obtain ⟨i, hi⟩ := List.getElem?_of_mem hl
    cases hend : D.ended l.2 with
    | true => rfl
    | false =>
        have hopen := h.busy i l.1 l.2 hi hend
        exact absurd (List.mem_of_getElem? hopen) (h.closed hexit)
  refine
    { closed := h.closed
      ended := hended
      awake := fun hexit l hl => ?_
      still := fun hexit => ⟨fun f k => ?_, fun i o => ?_⟩ }
  · cases hsleep : D.asleep l.2 with
    | false => rfl
    | true =>
        have hend := hended hexit l hl
        rw [D.asleep_ended hsleep] at hend
        cases hend
  · have hshut : s.files[f]? ≠ some true :=
      fun hopen => h.closed hexit (List.mem_of_getElem? hopen)
    simp only [use, hshut, if_false]
  · cases hst : step D.fileEnter D.fileBody s.pool (.advance i o) with
    | none => simp only [use, hst, Option.map_none]
    | some c =>
        rcases step_cases hst with ⟨k, hmv, -⟩ | ⟨j, p, l, g, l', -, hl, hb, -⟩
        · cases hmv
        · have hend := hended hexit l (List.mem_of_getElem? hl)
          rw [(fileBody_cases hb).1] at hend
          cases hend

/-! ## What the events keep of it -/

theorem Counted.chrdevOpen {s t : D.State} (h : D.Counted s)
    (horder : D.owners = 0 → D.InOrder s .chrdevOpen)
    (hst : D.use s .chrdevOpen = some t) : D.Counted t := by
  simp only [use, Option.ite_none_left_eq_some, Option.some.injEq] at hst
  obtain ⟨hrefuse, rfl⟩ := hst
  have hexit : s.exit.isNone := by
    rcases Nat.eq_zero_or_pos D.owners with hzero | hpos
    · exact horder hzero
    · cases hs : s.exit with
      | none => rfl
      | some pc =>
          exact absurd (Or.inr ⟨Nat.ne_of_gt hpos, by rw [hs]; rfl⟩) hrefuse
  refine
    { refs := ?_
      busy := fun i f l hl hend =>
        lookup_append_old _ (h.busy i f l hl hend)
      closed := fun hsome => ?_ }
  · show s.refs + D.owners = D.owners * opened (s.files ++ [true])
    rw [opened, total_append_one, Nat.mul_add, h.refs]
    simp [opened]
  · simp only [Option.isNone_iff_eq_none] at hexit
    simp [hexit] at hsome

theorem Counted.release {s t : D.State} {f : Nat} (h : D.Counted s)
    (hst : D.use s (.release f) = some t) : D.Counted t := by
  simp only [use, Option.ite_none_right_eq_some, Option.some.injEq] at hst
  obtain ⟨⟨hopen, hoff⟩, rfl⟩ := hst
  refine
    { refs := ?_
      busy := fun i f' l hl hend => ?_
      closed := fun hsome hmem => ?_ }
  · have hset : opened (s.files.set f false) + 1 = opened s.files :=
      total_set Bool.toNat false hopen
    show s.refs - D.owners = D.owners * opened (s.files.set f false)
    rw [h.refs, ← hset, Nat.mul_add, Nat.mul_one, Nat.add_sub_cancel]
  · have hfile := h.busy i f' l hl hend
    have hne : f ≠ f' := by
      rintro rfl
      have hcall := List.all_eq_true.mp hoff _ (List.mem_of_getElem? hl)
      simp [offFile, hend] at hcall
    exact lookup_set_ne _ hne hfile
  · rcases List.mem_or_eq_of_mem_set hmem with hold | hnew
    · exact h.closed hsome hold
    · cases hnew

theorem Counted.ioctl {s t : D.State} {f : Nat} {k : D.Args}
    (h : D.Counted s) (hst : D.use s (.ioctl f k) = some t) :
    D.Counted t := by
  simp only [use, step, Option.map_some, Option.ite_none_right_eq_some,
    Option.some.injEq] at hst
  obtain ⟨hopen, rfl⟩ := hst
  refine { refs := h.refs, busy := fun i f' l hl hend => ?_, closed := h.closed }
  rcases lookup_append_cases hl with hold | ⟨-, hnew⟩
  · exact h.busy i f' l hold hend
  · cases hnew
    exact hopen

theorem Counted.advance {s t : D.State} {i : Nat} {o : D.Choice}
    (h : D.Counted s) (hst : D.use s (.advance i o) = some t) :
    D.Counted t := by
  simp only [use, Option.map_eq_some_iff] at hst
  obtain ⟨c, hc, rfl⟩ := hst
  rcases step_cases hc with ⟨k, hmv, -⟩ | ⟨j, p, l, g, l', -, hl, hb, rfl⟩
  · cases hmv
  · obtain ⟨hend, hfile⟩ := fileBody_cases hb
    refine { refs := h.refs, busy := fun j' f m hm hm' => ?_, closed := h.closed }
    rcases lookup_set_cases hl hm with ⟨-, hown⟩ | ⟨-, hold⟩
    · have hf : f = l.1 := by rw [← hfile, ← hown]
      rw [hf]
      exact h.busy j l.1 l.2 hl hend
    · exact h.busy j' f m hold hm'

theorem Counted.deleteModule {s t : D.State} (h : D.Counted s)
    (horder : D.owners = 0 → D.InOrder s .deleteModule)
    (hst : D.use s .deleteModule = some t) : D.Counted t := by
  simp only [use, Option.ite_none_right_eq_some, Option.some.injEq] at hst
  obtain ⟨⟨-, hrefs⟩, rfl⟩ := hst
  refine { refs := h.refs, busy := h.busy, closed := fun _ => ?_ }
  rcases Nat.eq_zero_or_pos D.owners with hzero | hpos
  · exact horder hzero
  · have hcount := h.refs
    rw [hrefs] at hcount
    rcases Nat.mul_eq_zero.mp hcount.symm with hz | hz
    · omega
    · exact not_opened hz

theorem Counted.exit {s t : D.State} (h : D.Counted s)
    (hst : D.use s .exit = some t) : D.Counted t := by
  simp only [use] at hst
  split at hst
  case h_1 => cases hst
  case h_2 pc hpc =>
    obtain ⟨r, -, rfl⟩ := Option.map_eq_some_iff.mp hst
    exact
      { refs := h.refs
        busy := h.busy
        closed := fun _ => h.closed (by rw [hpc]; rfl) }

theorem Counted.use {s t : D.State} {e : D.Event} (h : D.Counted s)
    (horder : D.owners = 0 → D.InOrder s e) (hst : D.use s e = some t) : D.Counted t := by
  cases e with
  | chrdevOpen => exact h.chrdevOpen horder hst
  | release f => exact h.release hst
  | ioctl f k => exact h.ioctl hst
  | advance i o => exact h.advance hst
  | deleteModule => exact h.deleteModule horder hst
  | exit => exact h.exit hst

/-! ## Out of order -/

/-- An event out of order leaves a file open beside the exit function. -/
theorem not_alone_of_disorder {s t : D.State} {e : D.Event}
    (horder : ¬ D.InOrder s e) (hst : D.use s e = some t) : ¬ D.Alone t := by
  intro halone
  cases e with
  | chrdevOpen =>
      simp only [Driver.use, Option.ite_none_left_eq_some,
        Option.some.injEq] at hst
      obtain ⟨-, rfl⟩ := hst
      have hexit : s.exit.isSome := by
        cases hs : s.exit with
        | none => simp [InOrder, hs] at horder
        | some pc => rfl
      exact halone.closed hexit (List.mem_append_right _ List.mem_cons_self)
  | deleteModule =>
      simp only [Driver.use, Option.ite_none_right_eq_some,
        Option.some.injEq] at hst
      obtain ⟨-, rfl⟩ := hst
      exact horder (halone.closed rfl)
  | release f => exact horder trivial
  | ioctl f k => exact horder trivial
  | advance i o => exact horder trivial
  | exit => exact horder trivial

/-- The exit function is alone throughout a run exactly when the events of
the run are in order. -/
theorem alone_iff_inOrder {evs : List D.Event} {s : D.State}
    (hrun : run D.use D.begin evs = some s) :
    Throughout D.use D.Alone D.begin evs ↔
      Along D.use D.InOrder D.begin evs :=
  throughout_iff_along (I := D.Counted)
    (fun _ _ _ h hC hst => Counted.use h (fun _ => hC) hst)
    (fun _ h => h.alone)
    (fun _ _ _ _ hC hst => not_alone_of_disorder hC hst)
    D.begin_counted hrun

/-- A driver that names an owner is never torn down under its users. -/
theorem alone_of_owner {evs : List D.Event} (howner : D.owners ≠ 0) :
    Throughout D.use D.Alone D.begin evs := by
  intro xs ys t _ hxs
  have ht : D.Counted t :=
    run_induct (P := D.Counted)
      (fun _ _ _ h hst =>
        Counted.use h (fun hzero => absurd hzero howner) hst)
      D.begin_counted hxs
  exact ht.alone

end Driver

end EmbeddedSystem.Verified.ModuleRef
