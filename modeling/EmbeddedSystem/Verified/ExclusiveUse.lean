import EmbeddedSystem.Verified.Transition

/-!
# Resources that one module has at a time

GPIOs and interrupt lines go to the module that requests them first.  An init
function requests what it needs one after another.  When a request fails, a
careful one frees what it has got so far and gives up; another one goes on as
if it had got everything, or even frees what it did not get.  To the kernel
nobody owns anything: `free` takes a resource away from whoever has it.

Init and exit functions of different modules run at the same time, statement
by statement.  `relies` is what a module takes for granted at the point where
it is.  As long as every unchecked request is granted (`Granted`), the holder
of a resource is the module that relies on it (`Owned`), and the first one
that is not leaves a module without what it relies on
(`apart_iff_granted`).
-/

set_option autoImplicit false

namespace EmbeddedSystem.Verified.ExclusiveUse

open EmbeddedSystem.Verified.Transition

variable {R M : Type}

/-! ## Modules -/

/-- What an init function does when a request fails. -/
inductive OnFailure (R : Type) where
  /-- free these, one after another, and return the error -/
  | giveUp (undo : List R)
  | ignore
  /-- free what it did not get, and go on -/
  | free
deriving DecidableEq, Repr

def OnFailure.givesUp : OnFailure R → Bool
  | .giveUp _ => true
  | .ignore => false
  | .free => false

inductive Stmt (R : Type) where
  | request (r : R) (onFailure : OnFailure R)
  /-- a call that can fail; the function frees these then and gives up -/
  | call (undo : List R)
deriving DecidableEq, Repr

/-- The resources that the statements request. -/
def requests : List (Stmt R) → List R
  | [] => []
  | .request r _ :: rest => r :: requests rest
  | .call _ :: rest => requests rest

/-- Where the statements give up, they free what has been requested by then.
That is `has` before the first one. -/
def Undoes : List R → List (Stmt R) → Prop
  | _, [] => True
  | has, .request r (.giveUp undo) :: rest =>
      undo.Perm has ∧ Undoes (r :: has) rest
  | has, .request r .ignore :: rest => Undoes (r :: has) rest
  | has, .request r .free :: rest => Undoes (r :: has) rest
  | has, .call undo :: rest => undo.Perm has ∧ Undoes has rest

instance decidableUndoes [DecidableEq R] :
    ∀ (has : List R) (stmts : List (Stmt R)), Decidable (Undoes has stmts)
  | _, [] => inferInstanceAs (Decidable True)
  | has, .request r (.giveUp undo) :: rest =>
      have := decidableUndoes (r :: has) rest
      inferInstanceAs (Decidable (undo.Perm has ∧ Undoes (r :: has) rest))
  | has, .request r .ignore :: rest => decidableUndoes (r :: has) rest
  | has, .request r .free :: rest => decidableUndoes (r :: has) rest
  | has, .call undo :: rest =>
      have := decidableUndoes has rest
      inferInstanceAs (Decidable (undo.Perm has ∧ Undoes has rest))

theorem Undoes.after_request {has : List R} {r : R} {onFailure : OnFailure R}
    {rest : List (Stmt R)} (h : Undoes has (.request r onFailure :: rest)) :
    Undoes (r :: has) rest := by
  cases onFailure with
  | giveUp undo => exact h.2
  | ignore => exact h
  | free => exact h

/-- An init function, and what the exit function frees, in its order. -/
structure Module (R : Type) where
  init : List (Stmt R)
  exit : List R
  once : (requests init).Nodup
  undoes : Undoes [] init
  returns : exit.Perm (requests init)

/-- Where a module is.  A list of resources is what has been requested so far,
or what is still to be freed. -/
inductive Phase (R : Type) where
  | unloaded
  | loading (has : List R) (rest : List (Stmt R))
  | undoing (has : List R)
  | loaded
  | unloading (has : List R)
deriving DecidableEq, Repr

/-- What the module takes for granted. -/
def relies (d : Module R) : Phase R → List R
  | .unloaded => []
  | .loading has _ => has
  | .undoing has => has
  | .loaded => d.exit
  | .unloading has => has

/-! ## The system -/

/-- Who has what, where the modules are, and how often a module has freed what
it did not have. -/
structure State (R M : Type) where
  holder : R → Option M
  phase : M → Phase R
  trespasses : Nat

/-- No module is loaded. -/
def boot : State R M := ⟨fun _ => none, fun _ => .unloaded, 0⟩

inductive Event (M : Type) where
  | insmod (m : M)
  | rmmod (m : M)
  /-- the next statement of the init or exit function; `ok` says whether a
  call that can fail succeeds -/
  | next (m : M) (ok : Bool)
deriving DecidableEq, Repr

/-- `f` with another value at `a`. -/
def put {A B : Type} [DecidableEq A] (f : A → B) (a : A) (b : B) : A → B :=
  fun x => if x = a then b else f x

@[simp] theorem put_self {A B : Type} [DecidableEq A] (f : A → B) (a : A)
    (b : B) : put f a b a = b := if_pos rfl

theorem put_ne {A B : Type} [DecidableEq A] (f : A → B) {a x : A} (b : B)
    (h : x ≠ a) : put f a b x = f x := if_neg h

/-- What holds of the old values and of the new one. -/
theorem put_forall {A B : Type} [DecidableEq A] {P : A → B → Prop}
    {f : A → B} {a : A} {b : B} (hold : ∀ x, P x (f x)) (hnew : P a b)
    (x : A) : P x (put f a b x) := by
  by_cases hx : x = a
  · subst hx
    rw [put_self]
    exact hnew
  · rw [put_ne _ _ hx]
    exact hold x

section Step

variable [DecidableEq R] [DecidableEq M]

def State.goto (s : State R M) (m : M) (p : Phase R) : State R M :=
  { s with phase := put s.phase m p }

/-- Module `m` frees `r`. -/
def State.free (s : State R M) (m : M) (r : R) : State R M :=
  { s with
    holder := put s.holder r none
    trespasses :=
      if s.holder r = some m then s.trespasses else s.trespasses + 1 }

/-- Module `m` gets `r`. -/
def State.grant (s : State R M) (m : M) (r : R) : State R M :=
  { s with holder := put s.holder r (some m) }

def step (D : M → Module R) (s : State R M) : Event M → Option (State R M)
  | .insmod m =>
      match s.phase m with
      | .unloaded => some (s.goto m (.loading [] (D m).init))
      | _ => none
  | .rmmod m =>
      match s.phase m with
      | .loaded => some (s.goto m (.unloading (D m).exit))
      | _ => none
  | .next m ok =>
      match s.phase m with
      | .loading _ [] => some (s.goto m .loaded)
      | .loading has (.call undo :: rest) =>
          some (s.goto m (if ok then .loading has rest else .undoing undo))
      | .loading has (.request r onFailure :: rest) =>
          if s.holder r = none ∧ ok then
            some ((s.grant m r).goto m (.loading (r :: has) rest))
          else
            match onFailure with
            | .giveUp undo => some (s.goto m (.undoing undo))
            | .ignore => some (s.goto m (.loading (r :: has) rest))
            | .free => some ((s.free m r).goto m (.loading (r :: has) rest))
      | .undoing (r :: has) => some ((s.free m r).goto m (.undoing has))
      | .unloading (r :: has) => some ((s.free m r).goto m (.unloading has))
      | .undoing [] => some (s.goto m .unloaded)
      | .unloading [] => some (s.goto m .unloaded)
      | .unloaded => none
      | .loaded => none

/-- The next statement is not an unchecked request that fails. -/
def Grants (s : State R M) (ok : Bool) : Phase R → Prop
  | .loading _ (.request r onFailure :: _) =>
      onFailure.givesUp = true ∨ (s.holder r = none ∧ ok = true)
  | _ => True

/-- A request whose result nobody checks is granted. -/
def Granted (s : State R M) : Event M → Prop
  | .next m ok => Grants s ok (s.phase m)
  | _ => True

instance (s : State R M) (ok : Bool) : ∀ p, Decidable (Grants s ok p)
  | .loading _ (.request r onFailure :: _) =>
      inferInstanceAs (Decidable
        (onFailure.givesUp = true ∨ (s.holder r = none ∧ ok = true)))
  | .loading _ (.call _ :: _) => inferInstanceAs (Decidable True)
  | .loading _ [] => inferInstanceAs (Decidable True)
  | .unloaded => inferInstanceAs (Decidable True)
  | .undoing _ => inferInstanceAs (Decidable True)
  | .loaded => inferInstanceAs (Decidable True)
  | .unloading _ => inferInstanceAs (Decidable True)

instance (s : State R M) : ∀ e, Decidable (Granted s e)
  | .insmod _ => inferInstanceAs (Decidable True)
  | .rmmod _ => inferInstanceAs (Decidable True)
  | .next m ok => inferInstanceAs (Decidable (Grants s ok (s.phase m)))

/-- What the events do. -/
inductive Step (D : M → Module R) (s : State R M) :
    Event M → State R M → Prop where
  | insmod (m : M) (h : s.phase m = .unloaded) :
      Step D s (.insmod m) (s.goto m (.loading [] (D m).init))
  | rmmod (m : M) (h : s.phase m = .loaded) :
      Step D s (.rmmod m) (s.goto m (.unloading (D m).exit))
  | ready (m : M) (ok : Bool) (has : List R)
      (h : s.phase m = .loading has []) :
      Step D s (.next m ok) (s.goto m .loaded)
  | called (m : M) (undo has : List R) (rest : List (Stmt R))
      (h : s.phase m = .loading has (.call undo :: rest)) :
      Step D s (.next m true) (s.goto m (.loading has rest))
  | callFailed (m : M) (undo has : List R) (rest : List (Stmt R))
      (h : s.phase m = .loading has (.call undo :: rest)) :
      Step D s (.next m false) (s.goto m (.undoing undo))
  | granted (m : M) (r : R) (onFailure : OnFailure R) (has : List R)
      (rest : List (Stmt R))
      (h : s.phase m = .loading has (.request r onFailure :: rest))
      (hfree : s.holder r = none) :
      Step D s (.next m true)
        ((s.grant m r).goto m (.loading (r :: has) rest))
  | refused (m : M) (ok : Bool) (r : R) (undo has : List R)
      (rest : List (Stmt R))
      (h : s.phase m = .loading has (.request r (.giveUp undo) :: rest)) :
      Step D s (.next m ok) (s.goto m (.undoing undo))
  | ignored (m : M) (ok : Bool) (r : R) (has : List R)
      (rest : List (Stmt R))
      (h : s.phase m = .loading has (.request r .ignore :: rest))
      (hno : ¬ (s.holder r = none ∧ ok = true)) :
      Step D s (.next m ok) (s.goto m (.loading (r :: has) rest))
  | freed (m : M) (ok : Bool) (r : R) (has : List R)
      (rest : List (Stmt R))
      (h : s.phase m = .loading has (.request r .free :: rest))
      (hno : ¬ (s.holder r = none ∧ ok = true)) :
      Step D s (.next m ok)
        ((s.free m r).goto m (.loading (r :: has) rest))
  | undo (m : M) (ok : Bool) (r : R) (has : List R)
      (h : s.phase m = .undoing (r :: has)) :
      Step D s (.next m ok) ((s.free m r).goto m (.undoing has))
  | undone (m : M) (ok : Bool) (h : s.phase m = .undoing []) :
      Step D s (.next m ok) (s.goto m .unloaded)
  | unload (m : M) (ok : Bool) (r : R) (has : List R)
      (h : s.phase m = .unloading (r :: has)) :
      Step D s (.next m ok) ((s.free m r).goto m (.unloading has))
  | gone (m : M) (ok : Bool) (h : s.phase m = .unloading []) :
      Step D s (.next m ok) (s.goto m .unloaded)

theorem step_cases {D : M → Module R} {s t : State R M} {e : Event M}
    (hst : step D s e = some t) : Step D s e t := by
  cases e with
  | insmod m =>
      cases hp : s.phase m with
      | unloaded =>
          simp only [step, hp, Option.some.injEq] at hst
          exact hst ▸ .insmod m hp
      | _ => simp [step, hp] at hst
  | rmmod m =>
      cases hp : s.phase m with
      | loaded =>
          simp only [step, hp, Option.some.injEq] at hst
          exact hst ▸ .rmmod m hp
      | _ => simp [step, hp] at hst
  | next m ok =>
      cases hp : s.phase m with
      | unloaded => simp [step, hp] at hst
      | loaded => simp [step, hp] at hst
      | undoing has =>
          cases has with
          | nil =>
              simp only [step, hp, Option.some.injEq] at hst
              exact hst ▸ .undone m ok hp
          | cons r has =>
              simp only [step, hp, Option.some.injEq] at hst
              exact hst ▸ .undo m ok r has hp
      | unloading has =>
          cases has with
          | nil =>
              simp only [step, hp, Option.some.injEq] at hst
              exact hst ▸ .gone m ok hp
          | cons r has =>
              simp only [step, hp, Option.some.injEq] at hst
              exact hst ▸ .unload m ok r has hp
      | loading has stmts =>
          cases stmts with
          | nil =>
              simp only [step, hp, Option.some.injEq] at hst
              exact hst ▸ .ready m ok has hp
          | cons stmt rest =>
              cases stmt with
              | call undo =>
                  simp only [step, hp, Option.some.injEq] at hst
                  cases ok with
                  | true => exact hst ▸ .called m undo has rest hp
                  | false => exact hst ▸ .callFailed m undo has rest hp
              | request r onFailure =>
                  simp only [step, hp] at hst
                  by_cases hgrant : s.holder r = none ∧ ok = true
                  · rw [if_pos hgrant, Option.some.injEq] at hst
                    obtain ⟨hfree, rfl⟩ := hgrant
                    exact hst ▸ .granted m r onFailure has rest hp hfree
                  · rw [if_neg hgrant] at hst
                    cases onFailure with
                    | giveUp undo =>
                        cases hst
                        exact .refused m ok r undo has rest hp
                    | ignore =>
                        cases hst
                        exact .ignored m ok r has rest hp hgrant
                    | free =>
                        cases hst
                        exact .freed m ok r has rest hp hgrant

end Step

/-! ## Ownership -/

/-- An init function has requested `has` and still goes through `rest`. -/
def OnWay (d : Module R) : Phase R → Prop
  | .loading has rest =>
      (has ++ requests rest).Perm (requests d.init) ∧ Undoes has rest
  | _ => True

/-- Every resource is held by the module that relies on it. -/
structure Owned (D : M → Module R) (s : State R M) : Prop where
  holder : ∀ r m, s.holder r = some m ↔ r ∈ relies (D m) (s.phase m)
  once : ∀ m, (relies (D m) (s.phase m)).Nodup
  progress : ∀ m, OnWay (D m) (s.phase m)
  own : s.trespasses = 0

/-- What the modules may expect of each other. -/
structure Apart (D : M → Module R) (s : State R M) : Prop where
  /-- a module has what it relies on -/
  has : ∀ m r, r ∈ relies (D m) (s.phase m) → s.holder r = some m
  /-- so no two modules rely on the same -/
  apart : ∀ m m' r, r ∈ relies (D m) (s.phase m) →
    r ∈ relies (D m') (s.phase m') → m = m'
  /-- no module has freed what it did not have -/
  own : s.trespasses = 0

theorem boot_owned (D : M → Module R) : Owned D (boot : State R M) :=
  { holder := fun r m => iff_of_false (fun h => by cases h)
      List.not_mem_nil
    once := fun m => List.nodup_nil
    progress := fun m => trivial
    own := rfl }

theorem Owned.apart {D : M → Module R} {s : State R M} (h : Owned D s) :
    Apart D s :=
  { has := fun m r hr => (h.holder r m).mpr hr
    apart := fun m m' r hr hr' => by
      have hm := (h.holder r m).mpr hr
      rw [(h.holder r m').mpr hr', Option.some.injEq] at hm
      exact hm.symm
    own := h.own }

/-- What no module relies on is free. -/
theorem Owned.free_iff {D : M → Module R} {s : State R M} (h : Owned D s)
    (r : R) :
    s.holder r = none ↔ ∀ m, r ∉ relies (D m) (s.phase m) := by
  constructor
  · intro hnone m hmem
    rw [(h.holder r m).mpr hmem] at hnone
    cases hnone
  · intro hall
    cases hr : s.holder r with
    | none => rfl
    | some m => exact absurd ((h.holder r m).mp hr) (hall m)

section Owned

variable [DecidableEq R] [DecidableEq M] {D : M → Module R} {s t : State R M}

omit [DecidableEq R] in
/-- A step on that takes nothing and gives nothing back. -/
theorem Owned.goto (h : Owned D s) {m : M} {p : Phase R}
    (hmem : ∀ r, r ∈ relies (D m) p ↔ r ∈ relies (D m) (s.phase m))
    (honce : (relies (D m) p).Nodup) (hprogress : OnWay (D m) p) :
    Owned D (s.goto m p) := by
  refine
    { holder := fun r => put_forall
        (P := fun m' p => s.holder r = some m' ↔ r ∈ relies (D m') p)
        (h.holder r) ?_
      once := put_forall (P := fun m' p => (relies (D m') p).Nodup)
        h.once honce
      progress := put_forall h.progress hprogress
      own := h.own }
  rw [hmem]
  exact h.holder r m

omit [DecidableEq R] [DecidableEq M] in
/-- What has been requested is not requested again. -/
theorem Owned.unrequested (h : Owned D s) {m : M} {r : R} {has : List R}
    {onFailure : OnFailure R} {rest : List (Stmt R)}
    (hp : s.phase m = .loading has (.request r onFailure :: rest)) :
    OnWay (D m) (.loading (r :: has) rest) ∧ r ∉ has := by
  have hway := h.progress m
  rw [hp] at hway
  obtain ⟨hperm, hundoes⟩ := hway
  have hmove : ((r :: has) ++ requests rest).Perm
      (has ++ r :: requests rest) := List.perm_middle.symm
  have hnodup := (hmove.trans hperm).nodup_iff.mpr (D m).once
  rw [List.cons_append, List.nodup_cons] at hnodup
  exact ⟨⟨hmove.trans hperm, hundoes.after_request⟩, fun hmem =>
    hnodup.1 (List.mem_append_left _ hmem)⟩

theorem Owned.grant (h : Owned D s) {m : M} {r : R} {has : List R}
    {onFailure : OnFailure R} {rest : List (Stmt R)}
    (hp : s.phase m = .loading has (.request r onFailure :: rest))
    (hfree : s.holder r = none) :
    Owned D ((s.grant m r).goto m (.loading (r :: has) rest)) := by
  obtain ⟨hway, hnot⟩ := h.unrequested hp
  have honce := h.once m
  rw [hp] at honce
  refine
    { holder := fun r' m' => ?_
      once := put_forall (P := fun m' p => (relies (D m') p).Nodup)
        h.once (List.nodup_cons.mpr ⟨hnot, honce⟩)
      progress := put_forall h.progress hway
      own := h.own }
  show put s.holder r (some m) r' = some m' ↔
    r' ∈ relies (D m') (put s.phase m (.loading (r :: has) rest) m')
  have hold := h.holder r' m'
  by_cases hm : m' = m
  · subst hm
    rw [hp] at hold
    rw [put_self]
    by_cases hr : r' = r
    · subst hr
      rw [put_self]
      exact iff_of_true rfl List.mem_cons_self
    · rw [put_ne _ _ hr, hold]
      exact ⟨List.mem_cons_of_mem r, fun hmem =>
        (List.mem_cons.mp hmem).resolve_left hr⟩
  · rw [put_ne _ _ hm]
    by_cases hr : r' = r
    · subst hr
      rw [put_self]
      refine iff_of_false (fun heq => hm (Option.some.inj heq).symm) ?_
      intro hmem
      rw [hold.mpr hmem] at hfree
      cases hfree
    · rw [put_ne _ _ hr]
      exact hold

theorem Owned.free (h : Owned D s) {m : M} {r : R} {p : Phase R}
    (hrelies : relies (D m) (s.phase m) = r :: relies (D m) p)
    (hway : OnWay (D m) p) :
    Owned D ((s.free m r).goto m p) := by
  have hmine : s.holder r = some m := by
    rw [h.holder r m, hrelies]
    exact List.mem_cons_self
  have honce := h.once m
  rw [hrelies, List.nodup_cons] at honce
  refine
    { holder := fun r' m' => ?_
      once := put_forall (P := fun m' p => (relies (D m') p).Nodup)
        h.once honce.2
      progress := put_forall h.progress hway
      own := ?_ }
  · show put s.holder r none r' = some m' ↔
      r' ∈ relies (D m') (put s.phase m p m')
    have hold := h.holder r' m'
    by_cases hm : m' = m
    · subst hm
      rw [hrelies] at hold
      rw [put_self]
      by_cases hr : r' = r
      · subst hr
        rw [put_self]
        exact iff_of_false (fun heq => by cases heq) honce.1
      · rw [put_ne _ _ hr, hold, List.mem_cons]
        exact or_iff_right hr
    · rw [put_ne _ _ hm]
      by_cases hr : r' = r
      · subst hr
        rw [put_self]
        refine iff_of_false (fun heq => by cases heq) ?_
        intro hmem
        rw [hold.mpr hmem, Option.some.injEq] at hmine
        exact hm hmine
      · rw [put_ne _ _ hr]
        exact hold
  · show (if s.holder r = some m then s.trespasses else _) = 0
    rw [if_pos hmine]
    exact h.own

omit [DecidableEq R] in
/-- The failure path takes over what the init function has. -/
theorem Owned.giveUp (h : Owned D s) {m : M} {has undo : List R}
    {rest : List (Stmt R)} (hp : s.phase m = .loading has rest)
    (hundo : undo.Perm has) : Owned D (s.goto m (.undoing undo)) := by
  have honce := h.once m
  rw [hp] at honce
  refine h.goto (fun r => ?_) (hundo.nodup_iff.mpr honce) trivial
  rw [hp]
  exact hundo.mem_iff

theorem Owned.step {e : Event M} (h : Owned D s) (hgranted : Granted s e)
    (hst : step D s e = some t) : Owned D t := by
  cases step_cases hst with
  | insmod m hp =>
      exact h.goto (fun r => by rw [hp]; exact Iff.rfl) List.nodup_nil
        ⟨List.Perm.refl _, (D m).undoes⟩
  | rmmod m hp =>
      have honce := h.once m
      rw [hp] at honce
      exact h.goto (fun r => by rw [hp]; exact Iff.rfl) honce trivial
  | ready m ok has hp =>
      have hway := h.progress m
      rw [hp] at hway
      have hperm := hway.1
      rw [requests, List.append_nil] at hperm
      have hexit := (D m).returns.trans hperm.symm
      refine h.goto (fun r => ?_) ?_ trivial
      · rw [hp]
        exact hexit.mem_iff
      · have honce := h.once m
        rw [hp] at honce
        exact hexit.nodup_iff.mpr honce
  | called m undo has rest hp =>
      have honce := h.once m
      rw [hp] at honce
      have hway := h.progress m
      rw [hp] at hway
      exact h.goto (fun r => by rw [hp]; exact Iff.rfl) honce
        ⟨hway.1, hway.2.2⟩
  | callFailed m undo has rest hp =>
      have hway := h.progress m
      rw [hp] at hway
      exact h.giveUp hp hway.2.1
  | granted m r onFailure has rest hp hfree => exact h.grant hp hfree
  | refused m ok r undo has rest hp =>
      have hway := h.progress m
      rw [hp] at hway
      exact h.giveUp hp hway.2.1
  | ignored m ok r has rest hp hno =>
      have hgr : Grants s ok (s.phase m) := hgranted
      rw [hp] at hgr
      rcases hgr with hgive | hyes
      · cases hgive
      · exact absurd hyes hno
  | freed m ok r has rest hp hno =>
      have hgr : Grants s ok (s.phase m) := hgranted
      rw [hp] at hgr
      rcases hgr with hgive | hyes
      · cases hgive
      · exact absurd hyes hno
  | undo m ok r has hp => exact h.free (by rw [hp]; rfl) trivial
  | undone m ok hp =>
      exact h.goto (fun r => by rw [hp]; exact Iff.rfl) List.nodup_nil trivial
  | unload m ok r has hp => exact h.free (by rw [hp]; rfl) trivial
  | gone m ok hp =>
      exact h.goto (fun r => by rw [hp]; exact Iff.rfl) List.nodup_nil trivial

omit [DecidableEq R] [DecidableEq M] in
/-- An unchecked request that fails. -/
theorem refused_of_not_granted {e : Event M} (h : ¬ Granted s e) :
    ∃ m ok r onFailure has rest, e = .next m ok ∧
      s.phase m = .loading has (.request r onFailure :: rest) ∧
      onFailure.givesUp = false ∧ ¬ (s.holder r = none ∧ ok = true) := by
  cases e with
  | insmod m => exact absurd trivial h
  | rmmod m => exact absurd trivial h
  | next m ok =>
      have hno : ¬ Grants s ok (s.phase m) := h
      cases hp : s.phase m with
      | loading has stmts =>
          rw [hp] at hno
          cases stmts with
          | nil => exact absurd trivial hno
          | cons stmt rest =>
              cases stmt with
              | call undo => exact absurd trivial hno
              | request r onFailure =>
                  exact ⟨m, ok, r, onFailure, has, rest, rfl, hp,
                    Bool.eq_false_iff.mpr fun hgive => hno (Or.inl hgive),
                    fun hyes => hno (Or.inr hyes)⟩
      | _ =>
          rw [hp] at hno
          exact absurd trivial hno

/-- Then the module relies on what it does not have. -/
theorem Owned.not_apart {e : Event M} (h : Owned D s)
    (hnot : ¬ Granted s e) (hst : ExclusiveUse.step D s e = some t) :
    ¬ Apart D t := by
  obtain ⟨m, ok, r, onFailure, has, rest, rfl, hp, hgive, hno⟩ :=
    refused_of_not_granted hnot
  simp only [ExclusiveUse.step, hp, if_neg hno] at hst
  intro hapart
  have hhas : ∀ u : State R M, t = u.goto m (.loading (r :: has) rest) →
      u.holder r = some m := by
    intro u hu
    have hrelies : r ∈ relies (D m) (t.phase m) := by
      rw [hu]
      show r ∈ relies (D m) (put u.phase m (.loading (r :: has) rest) m)
      rw [put_self]
      exact List.mem_cons_self
    have hholder := hapart.has m r hrelies
    rw [hu] at hholder
    exact hholder
  cases onFailure with
  | giveUp undo => cases hgive
  | ignore =>
      -- it did not have it before either
      have hmine := (h.holder r m).mp (hhas s (Option.some.inj hst).symm)
      rw [hp] at hmine
      exact (h.unrequested hp).2 hmine
  | free =>
      have hmine := hhas (s.free m r) (Option.some.inj hst).symm
      have hnone : (s.free m r).holder r = none := put_self _ _ _
      rw [hnone] at hmine
      cases hmine

/-- Every module has what it relies on, and frees nothing else, exactly as
long as every unchecked request is granted. -/
theorem apart_iff_granted {es : List (Event M)} {s : State R M}
    (hrun : run (step D) boot es = some s) :
    Throughout (step D) (Apart D) boot es ↔
      Along (step D) Granted boot es :=
  throughout_iff_along (I := Owned D)
    (fun _ _ _ h hC hst => Owned.step h hC hst)
    (fun _ h => h.apart)
    (fun _ _ _ h hC hst => h.not_apart hC hst)
    (boot_owned D) hrun

/-! ## Careful modules -/

/-- The statements that are to come check what they request. -/
def Checked : List (Stmt R) → Prop
  | [] => True
  | .request _ onFailure :: rest => onFailure.givesUp = true ∧ Checked rest
  | .call _ :: rest => Checked rest

/-- Only careful modules are being loaded. -/
def AllChecked (s : State R M) : Prop :=
  ∀ m has rest, s.phase m = .loading has rest → Checked rest

/-- Event `e` loads no module that does not check its requests. -/
def Careful (D : M → Module R) (_ : State R M) : Event M → Prop
  | .insmod m => Checked (D m).init
  | _ => True

omit [DecidableEq R] [DecidableEq M] in
theorem AllChecked.granted (h : AllChecked s) (e : Event M) :
    Granted s e := by
  apply Classical.byContradiction
  intro hnot
  obtain ⟨m, ok, r, onFailure, has, rest, -, hp, hgive, -⟩ :=
    refused_of_not_granted hnot
  rw [(h m _ _ hp).1] at hgive
  cases hgive

theorem AllChecked.step {e : Event M} (h : AllChecked s)
    (hcareful : Careful D s e) (hst : ExclusiveUse.step D s e = some t) :
    AllChecked t := by
  -- one module moves on
  have hmove : ∀ (u : State R M) (m : M) (p : Phase R), u.phase = s.phase →
      (∀ has rest, p = .loading has rest → Checked rest) →
      AllChecked (u.goto m p) := by
    intro u m p hu hnew
    rw [AllChecked, State.goto, hu]
    exact put_forall (P := fun (_ : M) (p : Phase R) =>
      ∀ has rest, p = .loading has rest → Checked rest) h hnew
  cases step_cases hst with
  | insmod m hp =>
      refine hmove s m _ rfl fun has rest heq => ?_
      cases heq
      exact hcareful
  | called m undo has rest hp =>
      refine hmove s m _ rfl fun has' rest' heq => ?_
      cases heq
      exact h m has (.call undo :: rest) hp
  | granted m r onFailure has rest hp hfree =>
      refine hmove (s.grant m r) m _ rfl fun has' rest' heq => ?_
      cases heq
      exact (h m has (.request r onFailure :: rest) hp).2
  | ignored m ok r has rest hp hno =>
      refine hmove s m _ rfl fun has' rest' heq => ?_
      cases heq
      exact (h m has (.request r .ignore :: rest) hp).2
  | freed m ok r has rest hp hno =>
      refine hmove (s.free m r) m _ rfl fun has' rest' heq => ?_
      cases heq
      exact (h m has (.request r .free :: rest) hp).2
  | rmmod m hp => exact hmove s m _ rfl fun has rest heq => by cases heq
  | ready m ok has hp => exact hmove s m _ rfl fun has rest heq => by cases heq
  | callFailed m undo has rest hp =>
      exact hmove s m _ rfl fun has rest heq => by cases heq
  | refused m ok r undo has rest hp =>
      exact hmove s m _ rfl fun has rest heq => by cases heq
  | undo m ok r has hp =>
      exact hmove (s.free m r) m _ rfl fun has rest heq => by cases heq
  | undone m ok hp => exact hmove s m _ rfl fun has rest heq => by cases heq
  | unload m ok r has hp =>
      exact hmove (s.free m r) m _ rfl fun has rest heq => by cases heq
  | gone m ok hp => exact hmove s m _ rfl fun has rest heq => by cases heq

/-- Careful modules get along in every run. -/
theorem granted_of_careful {es : List (Event M)} {s : State R M}
    (hcareful : Along (step D) (Careful D) boot es)
    (hrun : run (step D) boot es = some s) :
    Along (step D) Granted boot es :=
  Along.weaken (I := AllChecked)
    (fun _ _ _ h hC hst => AllChecked.step h hC hst)
    (fun _ e _ h _ _ => h.granted e)
    (fun m has rest hp => by cases hp) hrun hcareful

/-- When the unchecked requests are granted, nothing is left behind. -/
theorem owned_of_granted {es : List (Event M)} {s : State R M}
    (hgranted : Along (step D) Granted boot es)
    (hrun : run (step D) boot es = some s) : Owned D s :=
  run_induct_along (P := Owned D)
    (fun _ _ _ h hC hst => Owned.step h hC hst) (boot_owned D) hgranted hrun

end Owned

end EmbeddedSystem.Verified.ExclusiveUse
