import EmbeddedSystem.Verified.CallPool

/-!
# A character device while it is being loaded

The init function of a module is a list of statements.  From the moment
`cdev_add` has succeeded the device can be reached through a node that is
already there, whether or not the statements after it have run, so the rest
of the init function and the calls on the device interleave.

Every statement of a call declares the parts of the device that it uses (a
lock, a list head, a buffer).  A call that is about to use a part that is not
set up yet does so at its peril: what happens then is left open, only the
flag `premature` records it.  Hence nothing touches a part before it is set
up unless the flag is up, and the shared state may start out with every part
as its set-up leaves it.

`Guarded` is the rule for devices whose calls are issued in time: an
invariant of the init function's progress and the calls under way from which
the parts used next are ready.  Its last field says that a call which is
issued too early can get to a part that is not ready all by itself.
-/

set_option autoImplicit false

namespace EmbeddedSystem.Verified.ModuleInit

open EmbeddedSystem.Verified.Transition
open EmbeddedSystem.Verified.CallPool

variable {R : Type}

/-! ## The init function -/

/-- The statements of an init function.  `checked` says whether the function
gives up when the call fails. -/
inductive Stmt (R : Type) where
  | allocChrdevRegion (checked : Bool)
  | cdevAlloc (checked : Bool)
  | cdevInit
  | cdevAdd (checked : Bool)
  /-- `INIT_LIST_HEAD(r)`, `spin_lock_init(r)` or `init_waitqueue_head(r)` -/
  | setUp (r : R)
  /-- `r = vmalloc(..)` -/
  | vmalloc (r : R)
  /-- `memset(r, '\0', ..)`, after which `contents` is set up -/
  | memset (r contents : R)
deriving DecidableEq, Repr

/-- The part that a statement sets up. -/
def Stmt.sets : Stmt R → Option R
  | .setUp r => some r
  | .vmalloc r => some r
  | .memset _ contents => some contents
  | _ => none

/-- How far an init function has got: the statements to come, whether its
`cdev` is there, whether `cdev_add` has made the device reachable, and the
parts that are set up. -/
structure Init (R : Type) where
  rest : List (Stmt R)
  cdev : Bool
  reachable : Bool
  ready : List R
deriving DecidableEq, Repr

variable [DecidableEq R]

/-- The next statement; `ok` says whether a call that can fail succeeds.  A
null pointer that is written through ends the function with an oops. -/
def Init.step (i : Init R) (ok : Bool) : Option (Init R) :=
  match i.rest with
  | [] => none
  | .allocChrdevRegion checked :: rest =>
      some { i with rest := if checked && !ok then [] else rest }
  | .cdevAlloc checked :: rest =>
      some { i with rest := if checked && !ok then [] else rest, cdev := ok }
  | .cdevInit :: rest => some { i with rest := if !i.cdev then [] else rest }
  | .cdevAdd checked :: rest =>
      some { i with
        rest := if checked && !ok then [] else rest
        reachable := ok }
  | .setUp r :: rest => some { i with rest := rest, ready := r :: i.ready }
  | .vmalloc r :: rest =>
      some { i with
        rest := rest
        ready := if ok then r :: i.ready else i.ready }
  | .memset r contents :: rest =>
      if r ∈ i.ready then
        some { i with rest := rest, ready := contents :: i.ready }
      else some { i with rest := [] }

omit [DecidableEq R] in
theorem rest_cases (stop : Bool) (rest : List (Stmt R)) :
    (if stop then [] else rest) = rest ∨ (if stop then [] else rest) = [] := by
  cases stop with
  | false => exact Or.inl rfl
  | true => exact Or.inr rfl

/-- What one statement can do to the parts and to the statements to come. -/
theorem Init.step_cases {i i' : Init R} {ok : Bool}
    (h : i.step ok = some i') :
    ∃ s rest, i.rest = s :: rest ∧ (i'.rest = rest ∨ i'.rest = []) ∧
      ((i'.ready = i.ready ∧ ∀ r, s ≠ .setUp r) ∨
        ∃ r, s.sets = some r ∧ i'.ready = r :: i.ready) := by
  unfold step at h
  split at h
  case h_1 => cases h
  case h_2 checked rest hrest =>
    cases h
    exact ⟨_, rest, hrest, rest_cases _ rest,
      Or.inl ⟨rfl, fun r hr => by cases hr⟩⟩
  case h_3 checked rest hrest =>
    cases h
    exact ⟨_, rest, hrest, rest_cases _ rest,
      Or.inl ⟨rfl, fun r hr => by cases hr⟩⟩
  case h_4 rest hrest =>
    cases h
    exact ⟨_, rest, hrest, rest_cases _ rest,
      Or.inl ⟨rfl, fun r hr => by cases hr⟩⟩
  case h_5 checked rest hrest =>
    cases h
    exact ⟨_, rest, hrest, rest_cases _ rest,
      Or.inl ⟨rfl, fun r hr => by cases hr⟩⟩
  case h_6 r rest hrest =>
    cases h
    exact ⟨_, rest, hrest, Or.inl rfl, Or.inr ⟨r, rfl, rfl⟩⟩
  case h_7 r rest hrest =>
    cases h
    refine ⟨_, rest, hrest, Or.inl rfl, ?_⟩
    cases ok with
    | true => exact Or.inr ⟨r, rfl, rfl⟩
    | false => exact Or.inl ⟨rfl, fun r hr => by cases hr⟩
  case h_8 r contents rest hrest =>
    split at h
    case isTrue =>
      cases h
      exact ⟨_, rest, hrest, Or.inl rfl, Or.inr ⟨contents, rfl, rfl⟩⟩
    case isFalse =>
      cases h
      exact ⟨_, rest, hrest, Or.inr rfl,
        Or.inl ⟨rfl, fun r hr => by cases hr⟩⟩

/-- What is set up stays so. -/
theorem Init.ready_subset {i i' : Init R} {ok : Bool}
    (h : i.step ok = some i') : i.ready ⊆ i'.ready := by
  obtain ⟨s, rest, -, -, ⟨hready, -⟩ | ⟨r, -, hready⟩⟩ := step_cases h
  · rw [hready]
    exact List.Subset.refl _
  · rw [hready]
    exact List.subset_cons_self r i.ready

/-! ### The order of the set-ups -/

/-- Among these statements, `b` is not set up before `a`. -/
def SetsFirst (a b : R) : List (Stmt R) → Prop
  | [] => True
  | s :: rest => s = .setUp a ∨ s.sets ≠ some b ∧ SetsFirst a b rest

instance decidableSetsFirst (a b : R) :
    ∀ stmts, Decidable (SetsFirst a b stmts)
  | [] => isTrue trivial
  | s :: rest =>
      have : Decidable (SetsFirst a b rest) := decidableSetsFirst a b rest
      inferInstanceAs
        (Decidable (s = .setUp a ∨ s.sets ≠ some b ∧ SetsFirst a b rest))

/-- `b` is not ready before `a`, now and later. -/
def Init.Ordered (a b : R) (i : Init R) : Prop :=
  a ∈ i.ready ∨ b ∉ i.ready ∧ SetsFirst a b i.rest

theorem Init.Ordered.step {a b : R} {i i' : Init R} {ok : Bool}
    (h : i.Ordered a b) (hst : i.step ok = some i') : i'.Ordered a b := by
  obtain ⟨s, rest, hrest, hrest', hready⟩ := step_cases hst
  rcases h with ha | ⟨hb, hfirst⟩
  · exact Or.inl (ready_subset hst ha)
  rw [hrest] at hfirst
  rcases hfirst with hs | ⟨hs, hfirst⟩
  · rcases hready with ⟨-, hnot⟩ | ⟨r, hr, hready⟩
    · exact absurd hs (hnot a)
    · rw [hs] at hr
      cases hr
      exact Or.inl (hready ▸ List.mem_cons_self)
  · refine Or.inr ⟨?_, ?_⟩
    · rcases hready with ⟨hready, -⟩ | ⟨r, hr, hready⟩
      · rw [hready]
        exact hb
      · rw [hready, List.mem_cons]
        rintro (rfl | hmem)
        · exact hs hr
        · exact hb hmem
    · rcases hrest' with hrest' | hrest'
      · rw [hrest']
        exact hfirst
      · rw [hrest']
        trivial

omit [DecidableEq R] in
/-- Once `b` is ready, `a` is. -/
theorem Init.Ordered.mem {a b : R} {i : Init R} (h : i.Ordered a b)
    (hb : b ∈ i.ready) : a ∈ i.ready := by
  rcases h with ha | ⟨hnot, -⟩
  · exact ha
  · exact absurd hb hnot

/-! ## The device and its callers -/

/-- A module with a character device: its init function, the parts that the
compiler has set up already, its calls as in `CallPool`, and the parts that
the next statement of a call uses. -/
structure Device (R : Type) where
  Shared : Type
  Local : Type
  Args : Type
  Choice : Type
  init : List (Stmt R)
  static : List R
  shared : Shared
  enter : Args → Local
  body : Shared → Nat → Local → Choice → Option (Shared × Local)
  uses : Local → List R

namespace Device

variable (D : Device R)

/-- The calls on the device. -/
abbrev Calls : Type := Conf D.Shared D.Local

/-- A module that is being loaded, and whether a call has used a part of it
that was not set up. -/
structure Loading where
  init : Init R
  pool : D.Calls
  premature : Bool

/-- A statement of the init function, a new call, or the next statement of a
call. -/
inductive Event where
  | init (ok : Bool)
  | issue (k : D.Args)
  | advance (i : Nat) (o : D.Choice)

/-- The init function has not begun. -/
def unloaded : Init R := ⟨D.init, false, false, D.static⟩

/-- Nothing has happened yet. -/
def begin : D.Loading := ⟨D.unloaded, start D.shared, false⟩

/-- One event. -/
def load (s : D.Loading) : D.Event → Option D.Loading
  | .init ok => (s.init.step ok).map fun i => { s with init := i }
  | .issue k =>
      if s.init.reachable then
        (step D.enter D.body s.pool (.issue k)).map fun c =>
          { s with pool := c }
      else none
  | .advance n o =>
      match s.pool.calls[n]? with
      | none => none
      | some l =>
          if D.uses l ⊆ s.init.ready then
            (step D.enter D.body s.pool (.advance n o)).map fun c =>
              { s with pool := c }
          else some { s with premature := true }

/-- A call is issued only when the parts that it needs are ready. -/
def InTime (needs : D.Args → List R) (s : D.Loading) : D.Event → Prop
  | .issue k => needs k ⊆ s.init.ready
  | _ => True

instance (needs : D.Args → List R) (s : D.Loading) (e : D.Event) :
    Decidable (D.InTime needs s e) :=
  match e with
  | .init _ => isTrue trivial
  | .issue k => inferInstanceAs (Decidable (needs k ⊆ s.init.ready))
  | .advance _ _ => isTrue trivial

end Device

/-! ## Devices whose calls are issued in time -/

/-- `J` is kept while the calls are issued in time, and makes ready what the
calls use next; and a call that is issued too early can get to a part that is
not ready. -/
structure Guarded (D : Device R) (needs : D.Args → List R)
    (J : Init R → D.Calls → Prop) : Prop where
  begin : J D.unloaded (start D.shared)
  init : ∀ i i' ok c, J i c → i.step ok = some i' → J i' c
  issue : ∀ i (c : D.Calls) k, J i c → needs k ⊆ i.ready →
    J i ⟨c.shared, c.calls ++ [D.enter k]⟩
  advance : ∀ i (c : D.Calls) (n : Nat) l o g l', J i c →
    c.calls[n]? = some l → D.body c.shared n l o = some (g, l') →
    J i ⟨g, c.calls.set n l'⟩
  use : ∀ i (c : D.Calls) (n : Nat) l, J i c → c.calls[n]? = some l →
    D.uses l ⊆ i.ready
  exposed : ∀ i (c : D.Calls) k, J i c → ¬ needs k ⊆ i.ready →
    ∃ (os : List D.Choice) (_ : D.Choice) (g : D.Shared) (l : D.Local),
      solo D.body c.calls.length (c.shared, D.enter k) os = some (g, l) ∧
        ¬ D.uses l ⊆ i.ready

section Guarded

variable {D : Device R} {needs : D.Args → List R}
  {J : Init R → D.Calls → Prop}

theorem Guarded.load (h : Guarded D needs J) {s t : D.Loading} {e : D.Event}
    (hJ : J s.init s.pool ∧ s.premature = false) (hin : D.InTime needs s e)
    (hst : D.load s e = some t) :
    J t.init t.pool ∧ t.premature = false := by
  cases e with
  | init ok =>
      obtain ⟨i, hi, rfl⟩ := Option.map_eq_some_iff.mp hst
      exact ⟨h.init _ i ok _ hJ.1 hi, hJ.2⟩
  | issue k =>
      rw [Device.load, Option.ite_none_right_eq_some] at hst
      obtain ⟨-, hst⟩ := hst
      obtain ⟨c, hc, rfl⟩ := Option.map_eq_some_iff.mp hst
      rw [step, Option.some.injEq] at hc
      subst hc
      exact ⟨h.issue _ _ k hJ.1 hin, hJ.2⟩
  | advance n o =>
      rw [Device.load] at hst
      split at hst
      case h_1 => cases hst
      case h_2 l hl =>
      rw [if_pos (h.use _ _ n l hJ.1 hl)] at hst
      obtain ⟨c, hc, rfl⟩ := Option.map_eq_some_iff.mp hst
      obtain ⟨k, hmv, -⟩ | ⟨m, o', l', g, l'', hmv, hl', hb, rfl⟩ :=
        step_cases hc
      · cases hmv
      · cases hmv
        exact ⟨h.advance _ _ n l' o g l'' hJ.1 hl' hb, hJ.2⟩

/-- As long as the calls are issued in time, no part is used before it is set
up. -/
theorem Guarded.run (h : Guarded D needs J) {s : D.Loading}
    {evs : List D.Event} (hrun : run D.load D.begin evs = some s)
    (hin : Along D.load (D.InTime needs) D.begin evs) :
    J s.init s.pool ∧ s.premature = false :=
  run_induct_along (P := fun s => J s.init s.pool ∧ s.premature = false)
    (fun _ _ _ hJ hin hst => h.load hJ hin hst) ⟨h.begin, rfl⟩ hin hrun

theorem Guarded.throughout (h : Guarded D needs J) {evs : List D.Event}
    (hin : Along D.load (D.InTime needs) D.begin evs) :
    Throughout D.load (fun s => s.premature = false) D.begin evs := by
  intro xs ys t hsplit hrun
  rw [hsplit] at hin
  exact (h.run hrun hin.of_append).2

/-- The newest call goes on alone until it uses a part that is not ready. -/
theorem premature_of_solo {i : Init R} {calls : List D.Local} {p : Bool}
    {g g' : D.Shared} {l l' : D.Local} {os : List D.Choice} (o : D.Choice)
    (h : solo D.body calls.length (g, l) os = some (g', l'))
    (huse : ¬ D.uses l' ⊆ i.ready) :
    ∃ (os' : List D.Choice) (t : D.Loading),
      Transition.run D.load ⟨i, ⟨g, calls ++ [l]⟩, p⟩
        (os'.map (Device.Event.advance calls.length)) = some t ∧
      t.premature = true := by
  have hlast : ∀ l : D.Local, (calls ++ [l])[calls.length]? = some l :=
    fun l => List.getElem?_concat_length
  -- a use of a part that is not ready
  have hstop : ∀ (l : D.Local) (g : D.Shared) (o : D.Choice),
      ¬ D.uses l ⊆ i.ready →
      Transition.run D.load ⟨i, ⟨g, calls ++ [l]⟩, p⟩
        ([o].map (Device.Event.advance calls.length)) =
          some ⟨i, ⟨g, calls ++ [l]⟩, true⟩ := by
    intro l g o hnot
    rw [List.map_singleton]
    apply run_single
    simp only [Device.load, hlast]
    rw [if_neg hnot]
  induction os generalizing g l with
  | nil =>
      rw [solo, run_nil, Option.some.injEq, Prod.mk.injEq] at h
      obtain ⟨-, rfl⟩ := h
      exact ⟨[o], _, hstop l g o huse, rfl⟩
  | cons o' os ih =>
      by_cases hready : D.uses l ⊆ i.ready
      · obtain ⟨⟨m, k⟩, hm, hrest⟩ := run_cons_some h
        obtain ⟨os', t, hrun, ht⟩ := ih hrest
        have hset : (calls ++ [l]).set calls.length k = calls ++ [k] := by
          rw [List.set_append_right _ _ (Nat.le_refl _), Nat.sub_self]
          rfl
        refine ⟨o' :: os', t, ?_, ht⟩
        have hfirst : D.load ⟨i, ⟨g, calls ++ [l]⟩, p⟩
            (.advance calls.length o') = some ⟨i, ⟨m, calls ++ [k]⟩, p⟩ := by
          simp only [Device.load, hlast]
          rw [if_pos hready, step_advance (hlast l) hm, hset]
          rfl
        rw [List.map_cons, run_cons, hfirst]
        exact hrun
      · exact ⟨[o'], _, hstop l g o' hready, rfl⟩

/-- A call that is issued too early can use a part before it is set up, with
no help from anybody. -/
theorem Guarded.early (h : Guarded D needs J) {s t : D.Loading}
    {evs : List D.Event} {k : D.Args}
    (hrun : Transition.run D.load D.begin evs = some s)
    (hin : Along D.load (D.InTime needs) D.begin evs)
    (hnot : ¬ D.InTime needs s (.issue k))
    (hst : D.load s (.issue k) = some t) :
    ∃ (os : List D.Choice) (u : D.Loading), Transition.run D.load t
        (os.map (Device.Event.advance s.pool.calls.length)) = some u ∧
      u.premature = true := by
  obtain ⟨os, o, g, l, hsolo, huse⟩ :=
    h.exposed s.init s.pool k (h.run hrun hin).1 hnot
  rw [Device.load, Option.ite_none_right_eq_some] at hst
  obtain ⟨-, hst⟩ := hst
  obtain ⟨c, hc, rfl⟩ := Option.map_eq_some_iff.mp hst
  rw [step, Option.some.injEq] at hc
  subst hc
  exact premature_of_solo o hsolo huse

end Guarded

/-! ### What a call may still use -/

/-- Every call has ready what it may still use. -/
def Within {D : Device R} (reach : D.Local → List R) (i : Init R)
    (c : D.Calls) : Prop :=
  ∀ (n : Nat) l, c.calls[n]? = some l → reach l ⊆ i.ready

section Within

variable {D : Device R} {reach : D.Local → List R} {i : Init R}
  {c : D.Calls}

omit [DecidableEq R] in
theorem within_start : Within reach i (start D.shared : D.Calls) := by
  intro n l hl
  simp [start] at hl

theorem Within.init {i' : Init R} {ok : Bool} (h : Within reach i c)
    (hst : i.step ok = some i') : Within reach i' c :=
  fun n l hl => List.Subset.trans (h n l hl) (Init.ready_subset hst)

omit [DecidableEq R] in
theorem Within.issue {l : D.Local} (h : Within reach i c)
    (hl : reach l ⊆ i.ready) : Within reach i ⟨c.shared, c.calls ++ [l]⟩ := by
  intro m k hk
  rcases lookup_append_cases hk with hold | ⟨-, rfl⟩
  · exact h m k hold
  · exact hl

omit [DecidableEq R] in
theorem Within.advance {n : Nat} {l l' : D.Local} {g : D.Shared}
    (h : Within reach i c) (hl : c.calls[n]? = some l)
    (hl' : reach l' ⊆ i.ready) :
    Within reach i ⟨g, c.calls.set n l'⟩ := by
  intro m k hk
  rcases lookup_set_cases hl hk with ⟨-, rfl⟩ | ⟨-, hold⟩
  · exact hl'
  · exact h m k hold

/-- The simple case: no step adds to what a call may still use. -/
theorem guarded_of_reach {needs : D.Args → List R}
    (henter : ∀ k, reach (D.enter k) ⊆ needs k)
    (hstep : ∀ g n l o g' l', D.body g n l o = some (g', l') →
      reach l' ⊆ reach l)
    (huses : ∀ l, D.uses l ⊆ reach l)
    (hexposed : ∀ (i : Init R) (c : D.Calls) k, ¬ needs k ⊆ i.ready →
      ∃ (os : List D.Choice) (_ : D.Choice) (g : D.Shared) (l : D.Local),
        solo D.body c.calls.length (c.shared, D.enter k) os = some (g, l) ∧
          ¬ D.uses l ⊆ i.ready) :
    Guarded D needs (Within reach) where
  begin := within_start
  init _ _ _ _ h hst := h.init hst
  issue _ _ k h hk := h.issue (List.Subset.trans (henter k) hk)
  advance _ _ n l o g l' h hl hb :=
    h.advance hl (List.Subset.trans (hstep _ n l o g l' hb) (h n l hl))
  use _ _ n l h hl := List.Subset.trans (huses l) (h n l hl)
  exposed i c k _ hk := hexposed i c k hk

end Within

end EmbeddedSystem.Verified.ModuleInit
