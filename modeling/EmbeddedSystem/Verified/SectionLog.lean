/-!
# The order of critical sections

Sections under one lock happen one after another.  A program's model keeps
them in a log; `who` says whose section an entry is.  A call that has not got
to its section is `Silent` in the log; one that has is `Placed` there, with
everything that was done before it in front and what came later behind.
Entries of other calls change neither.
-/

set_option autoImplicit false

namespace EmbeddedSystem.Verified.SectionLog

variable {S : Type} {who : S → Nat}

/-- `i` has no entry. -/
def Silent (who : S → Nat) (i : Nat) (log : List S) : Prop :=
  ∀ s ∈ log, who s ≠ i

/-- `s` is the only entry of its caller, and `before` is what precedes it. -/
def Placed (who : S → Nat) (before : List S) (s : S) (log : List S) : Prop :=
  ∃ after, log = before ++ s :: after ∧
    ∀ s' ∈ before ++ after, who s' ≠ who s

theorem Silent.concat {i : Nat} {s : S} {log : List S}
    (h : Silent who i log) (hs : who s ≠ i) : Silent who i (log ++ [s]) := by
  intro s' hs'
  rcases List.mem_append.mp hs' with hold | hnew
  · exact h s' hold
  · rw [List.mem_singleton.mp hnew]
    exact hs

/-- A number that was not given to a caller yet. -/
theorem silent_of_lt {n : Nat} {log : List S} (h : ∀ s ∈ log, who s < n) :
    Silent who n log :=
  fun s hs => Nat.ne_of_lt (h s hs)

/-- The caller's first entry comes after all there is. -/
theorem Silent.placed {s : S} {log : List S} (h : Silent who (who s) log) :
    Placed who log s (log ++ [s]) := by
  refine ⟨[], rfl, fun s' hs' => ?_⟩
  rw [List.append_nil] at hs'
  exact h s' hs'

theorem Placed.concat {before log : List S} {s s' : S}
    (h : Placed who before s log) (hs : who s' ≠ who s) :
    Placed who before s (log ++ [s']) := by
  obtain ⟨after, hsplit, hwho⟩ := h
  refine ⟨after ++ [s'], ?_, fun t ht => ?_⟩
  · rw [hsplit, List.append_assoc]
    rfl
  · rw [← List.append_assoc] at ht
    rcases List.mem_append.mp ht with hold | hnew
    · exact hwho t hold
    · rw [List.mem_singleton.mp hnew]
      exact hs

/-- What precedes an entry is a part of the log. -/
theorem Placed.front {before log : List S} {s : S}
    (h : Placed who before s log) : ∃ rest, log = before ++ rest := by
  obtain ⟨after, hsplit, -⟩ := h
  exact ⟨s :: after, hsplit⟩

/-- Of two entries one comes first. -/
theorem Placed.order {x y log : List S} {s t : S}
    (hs : Placed who x s log) (ht : Placed who y t log)
    (hne : who s ≠ who t) :
    (∃ mid, y = x ++ s :: mid) ∨ ∃ mid after,
      x = y ++ t :: mid ∧ log = y ++ t :: (mid ++ s :: after) := by
  obtain ⟨after, hlog, -⟩ := hs
  obtain ⟨after', hlog', -⟩ := ht
  have hst : t ≠ s := fun h => hne (h ▸ rfl)
  rcases List.append_eq_append_iff.mp (hlog.symm.trans hlog') with
    ⟨mid, hy, hrest⟩ | ⟨mid, hx, hrest⟩
  · cases mid with
    | nil =>
        rw [List.nil_append, List.cons.injEq] at hrest
        exact absurd hrest.1.symm hst
    | cons u mid =>
        rw [List.cons_append, List.cons.injEq] at hrest
        exact Or.inl ⟨mid, by rw [hy, hrest.1]⟩
  · cases mid with
    | nil =>
        rw [List.nil_append, List.cons.injEq] at hrest
        exact absurd hrest.1 hst
    | cons u mid =>
        rw [List.cons_append, List.cons.injEq] at hrest
        refine Or.inr ⟨mid, after, by rw [hx, hrest.1], ?_⟩
        rw [hlog, hx, hrest.1, List.append_assoc]
        rfl

/-! ## Steps that add an entry -/

/-- A step of `i` adds an entry of `i`, or none. -/
def Grows (who : S → Nat) (i : Nat) (log log' : List S) : Prop :=
  log' = log ∨ ∃ s, who s = i ∧ log' = log ++ [s]

theorem Silent.grows {i j : Nat} {log log' : List S}
    (h : Silent who j log) (hij : i ≠ j) (hg : Grows who i log log') :
    Silent who j log' := by
  rcases hg with hsame | ⟨s, hwho, happ⟩
  · rw [hsame]
    exact h
  · rw [happ]
    exact h.concat (by rw [hwho]; exact hij)

theorem Placed.grows {i : Nat} {before log log' : List S} {s : S}
    (h : Placed who before s log) (hi : i ≠ who s)
    (hg : Grows who i log log') : Placed who before s log' := by
  rcases hg with hsame | ⟨s', hwho, happ⟩
  · rw [hsame]
    exact h
  · rw [happ]
    exact h.concat (by rw [hwho]; exact hi)

/-- The entries of the others stay the same. -/
theorem Grows.mem_iff {i : Nat} {log log' : List S} {s : S}
    (hg : Grows who i log log') (hi : i ≠ who s) :
    s ∈ log' ↔ s ∈ log := by
  rcases hg with hsame | ⟨s', hwho, happ⟩
  · rw [hsame]
  · have hne : s ≠ s' := by
      rintro rfl
      exact hi hwho.symm
    rw [happ, List.mem_append, List.mem_singleton]
    exact or_iff_left hne

end EmbeddedSystem.Verified.SectionLog
