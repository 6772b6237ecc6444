import EmbeddedSystem.Verified.Transition

/-!
# Calls in flight over a shared state

A driver serves any number of calls at once.  A configuration holds the
shared state and one local state for every call that was ever issued; a call
that has returned stays in the list, so its outcome can still be spoken of.
A move either issues a new call or lets one call take its next atomic step.
The step of a call sees the shared state, the call's own number and its local
state, and an outcome `o` for whatever the environment decides in it.

Three tools come with it.

* `step_cases` inverts a move once and for all.
* `Annotated` states an invariant by a predicate on the shared state and an
  assertion about each call; `Annotated.run` is the rule of interference
  freedom: a step keeps the shared predicate, establishes its own call's new
  assertion and leaves the assertions of all other calls standing.  It may
  use an invariant of the whole configuration that was proved before.
* `total` sums a weight over all calls.  A step changes it exactly by the
  difference of the weights of the call that moved (`total_set`), which is
  what conservation laws between the shared state and the calls rest on.
-/

set_option autoImplicit false

namespace EmbeddedSystem.Verified.CallPool

open EmbeddedSystem.Verified.Transition

variable {G L K O : Type}

/-- The shared state and the local state of every call issued so far. -/
structure Conf (G L : Type) where
  shared : G
  calls : List L
deriving DecidableEq, Repr

/-- A move of the pool: a new call with argument `k`, or the next step of
call `i` with outcome `o`. -/
inductive Move (K O : Type) where
  | issue (k : K)
  | advance (i : Nat) (o : O)
deriving DecidableEq, Repr

/-- One move.  `enter` is the local state of a call that was just issued. -/
def step (enter : K → L) (body : G → Nat → L → O → Option (G × L))
    (c : Conf G L) : Move K O → Option (Conf G L)
  | .issue k => some ⟨c.shared, c.calls ++ [enter k]⟩
  | .advance i o =>
      match c.calls[i]? with
      | none => none
      | some l =>
          match body c.shared i l o with
          | none => none
          | some (g, l') => some ⟨g, c.calls.set i l'⟩

/-- No call has been issued yet. -/
def start (g : G) : Conf G L := ⟨g, []⟩

section Step

variable {enter : K → L} {body : G → Nat → L → O → Option (G × L)}

/-- Everything one move can do. -/
theorem step_cases {c d : Conf G L} {mv : Move K O}
    (h : step enter body c mv = some d) :
    (∃ k, mv = .issue k ∧ d = ⟨c.shared, c.calls ++ [enter k]⟩) ∨
      ∃ i o l g l', mv = .advance i o ∧ c.calls[i]? = some l ∧
        body c.shared i l o = some (g, l') ∧
        d = ⟨g, c.calls.set i l'⟩ := by
  cases mv with
  | issue k =>
      simp only [step, Option.some.injEq] at h
      exact Or.inl ⟨k, rfl, h.symm⟩
  | advance i o =>
      cases hl : c.calls[i]? with
      | none => simp [step, hl] at h
      | some l =>
          cases hb : body c.shared i l o with
          | none => simp [step, hl, hb] at h
          | some r =>
              obtain ⟨g, l'⟩ := r
              simp only [step, hl, hb, Option.some.injEq] at h
              exact Or.inr ⟨i, o, l, g, l', rfl, hl, hb, h.symm⟩

/-- A call that can take its step does so. -/
theorem step_advance {c : Conf G L} {i : Nat} {o : O} {l l' : L} {g : G}
    (hl : c.calls[i]? = some l)
    (hb : body c.shared i l o = some (g, l')) :
    step enter body c (.advance i o) = some ⟨g, c.calls.set i l'⟩ := by
  simp only [step, hl, hb]

end Step

/-! ## Looking up calls after a move -/

theorem lookup_lt {calls : List L} {i : Nat} {l : L}
    (h : calls[i]? = some l) : i < calls.length :=
  (List.getElem?_eq_some_iff.mp h).1

/-- After a step of call `i`, a call is either `i` in its new state or an
unchanged other call. -/
theorem lookup_set_cases {calls : List L} {i j : Nat} {l l' m : L}
    (hl : calls[i]? = some l) (h : (calls.set i l')[j]? = some m) :
    (j = i ∧ m = l') ∨ (i ≠ j ∧ calls[j]? = some m) := by
  by_cases hij : i = j
  · subst hij
    rw [List.getElem?_set_self (lookup_lt hl), Option.some.injEq] at h
    exact Or.inl ⟨rfl, h.symm⟩
  · rw [List.getElem?_set_ne hij] at h
    exact Or.inr ⟨hij, h⟩

theorem lookup_set_self {calls : List L} {i : Nat} {l l' : L}
    (hl : calls[i]? = some l) : (calls.set i l')[i]? = some l' :=
  List.getElem?_set_self (lookup_lt hl)

/-- A step of call `i` leaves every other call as it is. -/
theorem lookup_set_ne {calls : List L} {i j : Nat} {m : L} (l' : L)
    (hij : i ≠ j) (h : calls[j]? = some m) :
    (calls.set i l')[j]? = some m := by
  rw [List.getElem?_set_ne hij]
  exact h

/-- So does the issue of a new call. -/
theorem lookup_append_old {calls : List L} {j : Nat} {m : L} (l : L)
    (h : calls[j]? = some m) : (calls ++ [l])[j]? = some m := by
  rw [List.getElem?_append_left (lookup_lt h)]
  exact h

/-- After a new call was issued, a call is an old one or the new one. -/
theorem lookup_append_cases {calls : List L} {j : Nat} {l m : L}
    (h : (calls ++ [l])[j]? = some m) :
    calls[j]? = some m ∨ (j = calls.length ∧ m = l) := by
  rcases Nat.lt_or_ge j calls.length with hlt | hge
  · rw [List.getElem?_append_left hlt] at h
    exact Or.inl h
  · rw [List.getElem?_append_right hge] at h
    obtain ⟨hj, hm⟩ := List.getElem?_eq_some_iff.mp h
    have hj0 : j - calls.length = 0 := by simpa using hj
    refine Or.inr ⟨by omega, ?_⟩
    simpa [hj0] using hm.symm

/-- A call that takes no step stays as it is. -/
theorem lookup_ended {enter : K → L} {body : G → Nat → L → O → Option (G × L)}
    {c d : Conf G L} {mv : Move K O} {j : Nat} {l : L}
    (hl : c.calls[j]? = some l) (hend : ∀ g o, body g j l o = none)
    (h : step enter body c mv = some d) : d.calls[j]? = some l := by
  rcases step_cases h with
    ⟨k, hmv, hd⟩ | ⟨i, o, m, g, m', hmv, hm, hb, hd⟩
  · rw [hd]
    exact lookup_append_old _ hl
  · have hij : i ≠ j := by
      rintro rfl
      rw [hl, Option.some.injEq] at hm
      rw [← hm, hend] at hb
      cases hb
    rw [hd]
    exact lookup_set_ne m' hij hl

/-- What `f` says about call `i`, looked up in the list for all calls. -/
theorem lookup_map {M : Type} (f : L → M) {calls : List L} {i : Nat} {l : L}
    (h : calls[i]? = some l) : (calls.map f)[i]? = some (f l) := by
  rw [List.getElem?_map, h, Option.map_some]

/-! ## One call on its own -/

/-- Call `i` takes its steps, one for each outcome, and nobody else moves. -/
def solo (body : G → Nat → L → O → Option (G × L)) (i : Nat) :
    G × L → List O → Option (G × L) :=
  run fun c o => body c.1 i c.2 o

/-- A new call is issued and takes its steps alone until it has ended. -/
def alone (enter : K → L) (body : G → Nat → L → O → Option (G × L))
    (ended : L → Bool) (c : Conf G L) (a : K × List O) :
    Option (Conf G L) :=
  match solo body c.calls.length (c.shared, enter a.1) a.2 with
  | none => none
  | some (g, l) => if ended l then some ⟨g, c.calls ++ [l]⟩ else none

section Solo

variable {enter : K → L} {body : G → Nat → L → O → Option (G × L)}

/-- The steps of the newest call are steps of the pool. -/
theorem run_solo {calls : List L} {g g' : G} {l l' : L} {os : List O}
    (h : solo body calls.length (g, l) os = some (g', l')) :
    run (step enter body) ⟨g, calls ++ [l]⟩
        (os.map (Move.advance calls.length)) =
      some ⟨g', calls ++ [l']⟩ := by
  induction os generalizing g l with
  | nil =>
      rw [solo, run_nil, Option.some.injEq, Prod.mk.injEq] at h
      rw [h.1, h.2]
      rfl
  | cons o os ih =>
      obtain ⟨⟨m, k⟩, hm, hrest⟩ := run_cons_some h
      have hlast : (calls ++ [l])[calls.length]? = some l :=
        List.getElem?_concat_length
      have hset : (calls ++ [l]).set calls.length k = calls ++ [k] := by
        rw [List.set_append_right _ _ (Nat.le_refl _), Nat.sub_self]
        rfl
      have hfirst : step enter body ⟨g, calls ++ [l]⟩
          (.advance calls.length o) = some ⟨m, calls ++ [k]⟩ := by
        rw [← hset]
        exact step_advance hlast hm
      rw [List.map_cons, run_cons, hfirst]
      exact ih hrest

/-- A call on its own is a run of the pool. -/
theorem run_alone {ended : L → Bool} {c d : Conf G L} {k : K} {os : List O}
    (h : alone enter body ended c (k, os) = some d) :
    run (step enter body) c
        (.issue k :: os.map (Move.advance c.calls.length)) = some d ∧
      ∃ g l, solo body c.calls.length (c.shared, enter k) os = some (g, l) ∧
        ended l = true ∧ d = ⟨g, c.calls ++ [l]⟩ := by
  unfold alone at h
  dsimp only at h
  split at h
  · cases h
  case h_2 g l hsolo =>
    split at h
    case isFalse => cases h
    case isTrue hended =>
      cases h
      exact ⟨run_solo hsolo, g, l, hsolo, hended, rfl⟩

end Solo

/-! ## Interference freedom -/

/-- `I n g` speaks about the shared state and the number of calls issued,
`A g i l` about call `i` in local state `l`. -/
structure Annotated (I : Nat → G → Prop) (A : G → Nat → L → Prop)
    (c : Conf G L) : Prop where
  shared : I c.calls.length c.shared
  call : ∀ i l, c.calls[i]? = some l → A c.shared i l

/-- What has to be shown about single steps for an annotation to be an
invariant, given an invariant `B` of the configurations that was established
before. -/
structure Preserved (enter : K → L)
    (body : G → Nat → L → O → Option (G × L)) (B : Conf G L → Prop)
    (I : Nat → G → Prop) (A : G → Nat → L → Prop) : Prop where
  issue : ∀ n g, I n g → I (n + 1) g
  enter : ∀ n g k, I n g → A g n (enter k)
  own : ∀ c i l o g' l', B c → I c.calls.length c.shared →
    c.calls[i]? = some l → A c.shared i l →
    body c.shared i l o = some (g', l') →
    I c.calls.length g' ∧ A g' i l'
  other : ∀ c i l o g' l' j m, B c → I c.calls.length c.shared → i ≠ j →
    c.calls[i]? = some l → A c.shared i l →
    c.calls[j]? = some m → A c.shared j m →
    body c.shared i l o = some (g', l') → A g' j m

section Annotated

variable {enter : K → L} {body : G → Nat → L → O → Option (G × L)}
  {B : Conf G L → Prop} {I : Nat → G → Prop} {A : G → Nat → L → Prop}

theorem annotated_start {g : G} (h : I 0 g) :
    Annotated I A (start g : Conf G L) := by
  refine ⟨h, fun i l hl => ?_⟩
  simp [start] at hl

theorem Annotated.step (hp : Preserved enter body B I A) {c d : Conf G L}
    {mv : Move K O} (hB : B c) (h : Annotated I A c)
    (hst : CallPool.step enter body c mv = some d) : Annotated I A d := by
  obtain ⟨k, -, rfl⟩ | ⟨i, o, l, g, l', -, hl, hb, rfl⟩ := step_cases hst
  · refine ⟨by simpa using hp.issue _ _ h.shared, fun j m hm => ?_⟩
    rcases lookup_append_cases hm with hold | ⟨rfl, rfl⟩
    · exact h.call j m hold
    · exact hp.enter _ _ k h.shared
  · have hown := hp.own c i l o g l' hB h.shared hl (h.call i l hl) hb
    refine ⟨by simpa using hown.1, fun j m hm => ?_⟩
    rcases lookup_set_cases hl hm with ⟨rfl, rfl⟩ | ⟨hij, hold⟩
    · exact hown.2
    · exact hp.other c i l o g l' j m hB h.shared hij hl (h.call i l hl)
        hold (h.call j m hold) hb

/-- A preserved annotation holds at the end of every run, together with the
invariant it is relative to. -/
theorem Annotated.run (hp : Preserved enter body B I A)
    (hbase : ∀ c mv d, B c → CallPool.step enter body c mv = some d → B d)
    {c d : Conf G L} {mvs : List (Move K O)} (hB : B c)
    (h : Annotated I A c)
    (hrun : Transition.run (CallPool.step enter body) c mvs = some d) :
    B d ∧ Annotated I A d :=
  run_induct (P := fun c => B c ∧ Annotated I A c)
    (fun c mv d hc hst =>
      ⟨hbase c mv d hc.1 hst, Annotated.step hp hc.1 hc.2 hst⟩)
    ⟨hB, h⟩ hrun

end Annotated

/-! ## Sums over all calls -/

/-- The sum of the weight `w` over all calls. -/
def total (w : L → Nat) : List L → Nat
  | [] => 0
  | l :: calls => w l + total w calls

@[simp] theorem total_nil (w : L → Nat) : total w [] = 0 := rfl

@[simp] theorem total_cons (w : L → Nat) (l : L) (calls : List L) :
    total w (l :: calls) = w l + total w calls := rfl

theorem total_append_one (w : L → Nat) (calls : List L) (l : L) :
    total w (calls ++ [l]) = total w calls + w l := by
  induction calls with
  | nil =>
      show w l + 0 = 0 + w l
      omega
  | cons m calls ih =>
      rw [List.cons_append, total_cons, total_cons, ih]
      omega

/-- A step of call `i` moves the sum by the change of that call's weight. -/
theorem total_set (w : L → Nat) (l' : L) {calls : List L} {i : Nat} {l : L}
    (hl : calls[i]? = some l) :
    total w (calls.set i l') + w l = total w calls + w l' := by
  induction calls generalizing i with
  | nil => simp at hl
  | cons m calls ih =>
      cases i with
      | zero =>
          rw [List.getElem?_cons_zero, Option.some.injEq] at hl
          subst hl
          rw [List.set_cons_zero, total_cons, total_cons]
          omega
      | succ i =>
          rw [List.getElem?_cons_succ] at hl
          have hrec := ih hl
          rw [List.set_cons_succ, total_cons, total_cons]
          omega

/-- A single call's weight is part of the sum. -/
theorem le_total (w : L → Nat) {calls : List L} {i : Nat} {l : L}
    (hl : calls[i]? = some l) : w l ≤ total w calls := by
  induction calls generalizing i with
  | nil => simp at hl
  | cons m calls ih =>
      rw [total_cons]
      cases i with
      | zero =>
          rw [List.getElem?_cons_zero, Option.some.injEq] at hl
          subst hl
          omega
      | succ i =>
          rw [List.getElem?_cons_succ] at hl
          have hrec := ih hl
          omega

/-- So are the weights of two different calls together. -/
theorem add_le_total (w : L → Nat) {calls : List L} {i j : Nat} {l m : L}
    (hij : i ≠ j) (hl : calls[i]? = some l) (hm : calls[j]? = some m) :
    w l + w m ≤ total w calls := by
  induction calls generalizing i j with
  | nil => simp at hl
  | cons k calls ih =>
      rw [total_cons]
      cases i with
      | zero =>
          cases j with
          | zero => exact absurd rfl hij
          | succ j =>
              rw [List.getElem?_cons_zero, Option.some.injEq] at hl
              rw [List.getElem?_cons_succ] at hm
              have hle := le_total w hm
              subst hl
              omega
      | succ i =>
          rw [List.getElem?_cons_succ] at hl
          cases j with
          | zero =>
              rw [List.getElem?_cons_zero, Option.some.injEq] at hm
              have hle := le_total w hl
              subst hm
              omega
          | succ j =>
              rw [List.getElem?_cons_succ] at hm
              have hrec := ih (by omega) hl hm
              omega

/-- A positive sum has a call with a positive weight. -/
theorem exists_of_total_pos (w : L → Nat) {calls : List L}
    (h : 0 < total w calls) :
    ∃ (i : Nat) (l : L), calls[i]? = some l ∧ 0 < w l := by
  induction calls with
  | nil => simp at h
  | cons m calls ih =>
      by_cases hm : 0 < w m
      · exact ⟨0, m, rfl, hm⟩
      · rw [total_cons] at h
        obtain ⟨i, l, hl, hw⟩ := ih (by omega)
        exact ⟨i + 1, l, hl, hw⟩

theorem total_le_total {v w : L → Nat} (h : ∀ l, v l ≤ w l)
    (calls : List L) : total v calls ≤ total w calls := by
  induction calls with
  | nil => exact Nat.le_refl 0
  | cons l calls ih =>
      rw [total_cons, total_cons]
      exact Nat.add_le_add (h l) ih

/-- If no call has any weight, the sum is zero. -/
theorem total_eq_zero (w : L → Nat) {calls : List L}
    (h : ∀ (i : Nat) (l : L), calls[i]? = some l → w l = 0) :
    total w calls = 0 := by
  rcases Nat.eq_zero_or_pos (total w calls) with hz | hpos
  · exact hz
  · obtain ⟨i, l, hl, hw⟩ := exists_of_total_pos w hpos
    have := h i l hl
    omega

end EmbeddedSystem.Verified.CallPool
