/-!
# A counter with a lower and an upper bound

A counter between 0 and `max` takes requests to go up or down.  It grants
those that keep it within its bounds and turns down the others.  Every
granted request moves it by one in the direction asked for, so its value is
the number of ups granted minus the number of downs granted.

A request moves two counters that are at different values towards each other
or not at all (`steady_next`).  Maps of that kind are `Steady`, and a sequence
of them forgets what was lost on the way: without `k` of them the result is at
most `k` away (`Within.follow_sublist`).
-/

set_option autoImplicit false

namespace EmbeddedSystem.Verified.BoundedCounter

inductive Request where
  | up
  | down
deriving DecidableEq, Repr

/-- The counter has room for the request. -/
def grants (max n : Int) : Request → Bool
  | .up => n < max
  | .down => 0 < n

/-- 1 for an up, -1 for a down. -/
def Request.delta : Request → Int
  | .up => 1
  | .down => -1

/-- The counter after the request. -/
def next (max n : Int) (r : Request) : Int :=
  if grants max n r then n + r.delta else n

/-- The values the counter may take. -/
def InBounds (max n : Int) : Prop := 0 ≤ n ∧ n ≤ max

/-- A request keeps the counter within its bounds. -/
theorem InBounds.next {max n : Int} (h : InBounds max n) (r : Request) :
    InBounds max (BoundedCounter.next max n r) := by
  have hlo := h.1
  have hhi := h.2
  unfold BoundedCounter.next
  by_cases hg : grants max n r = true
  · rw [if_pos hg]
    cases r with
    | up =>
        have hroom : n < max := of_decide_eq_true hg
        constructor
        · show 0 ≤ n + 1
          omega
        · show n + 1 ≤ max
          omega
    | down =>
        have hroom : 0 < n := of_decide_eq_true hg
        constructor
        · show 0 ≤ n + -1
          omega
        · show n + -1 ≤ max
          omega
  · rw [if_neg hg]
    exact h

/-- Within the bounds, an up is turned down exactly at the upper bound. -/
theorem not_grants_up_iff {max n : Int} (h : InBounds max n) :
    grants max n .up = false ↔ n = max := by
  have hhi := h.2
  simp only [grants, decide_eq_false_iff_not]
  omega

/-- Within the bounds, a down is turned down exactly at zero. -/
theorem not_grants_down_iff {max n : Int} (h : InBounds max n) :
    grants max n .down = false ↔ n = 0 := by
  have hlo := h.1
  simp only [grants, decide_eq_false_iff_not]
  omega

/-! ## Two runs -/

/-- The two values are at most `d` apart. -/
def Within (d a b : Int) : Prop := a - b ≤ d ∧ b - a ≤ d

/-- A map that keeps the order, takes nothing further apart and moves nothing
by more than one. -/
structure Steady (f : Int → Int) : Prop where
  mono : ∀ a b, a ≤ b → f a ≤ f b
  close : ∀ a b, a ≤ b → f b - f a ≤ b - a
  near : ∀ n, Within 1 (f n) n

theorem steady_id : Steady id :=
  { mono := fun _ _ h => h
    close := fun _ _ _ => Int.le_refl _
    near := fun n => by
      unfold Within id
      omega }

theorem next_up (max n : Int) :
    next max n .up = if n < max then n + 1 else n := by
  by_cases h : n < max <;> simp [next, grants, h, Request.delta]

theorem next_down (max n : Int) :
    next max n .down = if 0 < n then n - 1 else n := by
  by_cases h : 0 < n
  · simp only [next, grants, h, Request.delta, decide_true, if_true]
    omega
  · simp [next, grants, h]

theorem steady_next (max : Int) (r : Request) :
    Steady fun n => next max n r := by
  cases r with
  | up =>
      simp only [next_up]
      refine ⟨fun a b hab => ?_, fun a b hab => ?_, fun n => ?_⟩
      · split <;> split <;> omega
      · split <;> split <;> omega
      · unfold Within
        split <;> omega
  | down =>
      simp only [next_down]
      refine ⟨fun a b hab => ?_, fun a b hab => ?_, fun n => ?_⟩
      · split <;> split <;> omega
      · split <;> split <;> omega
      · unfold Within
        split <;> omega

theorem Steady.within {f : Int → Int} (hf : Steady f) {d a b : Int}
    (h : Within d a b) : Within d (f a) (f b) := by
  unfold Within at *
  rcases Int.le_total a b with hab | hba
  · have hmono := hf.mono a b hab
    have hclose := hf.close a b hab
    omega
  · have hmono := hf.mono b a hba
    have hclose := hf.close b a hba
    omega

section Follow

variable {M : Type} {f : M → Int → Int}

/-- The value after the messages `ms`. -/
def follow (f : M → Int → Int) (n : Int) : List M → Int
  | [] => n
  | m :: ms => follow f (f m n) ms

theorem follow_append (n : Int) (ms ms' : List M) :
    follow f n (ms ++ ms') = follow f (follow f n ms) ms' := by
  induction ms generalizing n with
  | nil => rfl
  | cons m ms ih => exact ih (f m n)

/-- Two runs on the same messages stay in order, and get no further apart. -/
theorem follow_mono_close (hf : ∀ m, Steady (f m)) {a b : Int} (h : a ≤ b)
    (ms : List M) : follow f a ms ≤ follow f b ms ∧
      follow f b ms - follow f a ms ≤ b - a := by
  induction ms generalizing a b with
  | nil => exact ⟨h, Int.le_refl _⟩
  | cons m ms ih =>
      obtain ⟨hle, hdiff⟩ := ih ((hf m).mono a b h)
      have hclose := (hf m).close a b h
      refine ⟨hle, ?_⟩
      show follow f (f m b) ms - follow f (f m a) ms ≤ b - a
      omega

/-- A run that misses some of the messages ends as close to the full one as
it started, up to one for each message missed. -/
theorem Within.follow_sublist (hf : ∀ m, Steady (f m)) {kept ms : List M}
    (hsub : kept.Sublist ms) {k : Nat} (hk : ms.length = kept.length + k)
    {d a b : Int} (h : Within d a b) :
    Within (d + k) (follow f a ms) (follow f b kept) := by
  induction hsub generalizing k d a b with
  | slnil =>
      have hk0 : k = 0 := by simpa using hk.symm
      subst hk0
      show Within (d + ((0 : Nat) : Int)) a b
      simpa using h
  | @cons kept ms m hsub ih =>
      -- `m` is missed
      have hle := hsub.length_le
      obtain ⟨j, rfl⟩ : ∃ j, k = j + 1 := by
        rw [List.length_cons] at hk
        exact ⟨k - 1, by omega⟩
      have hnear := (hf m).near a
      have hfirst : Within (d + 1) (f m a) b := by
        unfold Within at *
        omega
      have hrest := ih (k := j) (by rw [List.length_cons] at hk; omega) hfirst
      have hsum : d + 1 + (j : Int) = d + ((j + 1 : Nat) : Int) := by omega
      rw [hsum] at hrest
      exact hrest
  | @cons_cons kept ms m hsub ih =>
      exact ih (by simpa [List.length_cons, Nat.add_right_comm] using hk)
        ((hf m).within h)

end Follow

end EmbeddedSystem.Verified.BoundedCounter
